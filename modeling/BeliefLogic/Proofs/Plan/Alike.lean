import BeliefLogic.Proofs.Agreement
import BeliefLogic.Proofs.Program.Kept

/-!
# Plans that differ in numbers and notes

Plans are alike if they are the same without numbers and notes. Planning a call looks at its type
only.
-/

namespace BeliefLogic

open Outcome List

variable {p q : Plan} {j : ℕ}

/-- Plans that differ in numbers and in notes below the root. -/
structure Plan.Alike (p q : Plan) : Prop where
  bare : q.bare = p.bare
  inputTypes : q.inputTypes = p.inputTypes
  outputType : q.outputType = p.outputType

namespace Plan

theorem Alike.refl (p : Plan) : p.Alike p := ⟨rfl, rfl, rfl⟩

theorem Alike.symm (h : p.Alike q) : q.Alike p :=
  ⟨h.bare.symm, h.inputTypes.symm, h.outputType.symm⟩

theorem Alike.trans {r : Plan} (h : p.Alike q) (h' : q.Alike r) : p.Alike r :=
  ⟨h'.bare.trans h.bare, h'.inputTypes.trans h.inputTypes, h'.outputType.trans h.outputType⟩

/-- A plan without answers that knows no types, as copies of such plans. -/
def NullUntyped (p : Plan) : Prop :=
  ∀ i m, p = .null i m → i.inputTypes = none ∧ i.outputType = none

/-- Numbering a plan makes one that is alike. -/
theorem alike_number (h : p.NullUntyped) (copying : Bool) (n : ℕ) (table : PlanTable) :
    p.Alike ((Plan.number copying p n).run table).1.1 := by
  refine ⟨bare_number copying p n table, ?_, ?_⟩
  all_goals
    cases p with
    | null i m =>
      obtain ⟨hinputs, houtput⟩ := h i m rfl
      cases copying
      · rfl
      · first | exact hinputs.symm | exact houtput.symm
    | log i p => rfl
    | softmax i p => rfl
    | sum i ps => rfl
    | sequence i xs y ss r => rfl

theorem NullUntyped.number (h : p.NullUntyped) (copying : Bool) (n : ℕ) (table : PlanTable) :
    ((Plan.number copying p n).run table).1.1.NullUntyped := by
  intro j m hj
  cases p with
  | null i m' =>
    cases copying
    · cases hj
      exact h i _ rfl
    · cases hj
      exact ⟨rfl, rfl⟩
  | log i p => cases hj
  | softmax i p => cases hj
  | sum i ps => cases hj
  | sequence i xs y ss r => cases hj

end Plan

theorem Plan.Alike.outline_number (h : p.Alike q) (copying copying' : Bool) (n n' : ℕ)
    (table table' : PlanTable) :
    ((Plan.number copying' q n').run table').1.1.outline =
      ((Plan.number copying p n).run table).1.1.outline := by
  rw [(Plan.number_spec copying p n table).outline, (Plan.number_spec copying' q n' table').outline,
    ← Plan.relabel_bare, h.bare, Plan.relabel_bare]

/-- The mode in which a goal is used, from what goals take and give. -/
def modeAt (G : List GoalFlow) (gs : List Goal) (j : ℕ) : Except Error Mode :=
  Flow.modeOf { goals := G } gs j

theorem Flow.modeOf_eq (f : Flow) (gs : List Goal) (j : ℕ) :
    f.modeOf gs j = modeAt f.goals gs j := rfl

/-- Emissions that differ in the plans of calls, and in what was traced. -/
structure Emission.Twin (K : Mode → ℤ → Plan → Prop) (G : List GoalFlow) (gs : List Goal)
    (e e' : Emission) : Prop where
  flow : e'.flow = e.flow
  marks : e.flow.goals = G
  goals : e.goals = gs ∧ e'.goals = gs
  types : e'.types = e.types
  steps : e'.steps.map Step.bare = e.steps.map Step.bare
  calls : Step.EachCallsAll K e.steps ∧ Step.EachCallsAll K e'.steps

def SameFailure {σ : Type} (e : Error) (_ : σ) (f : Error) (_ : σ) : Prop := e = f

namespace Emit

variable {K : Mode → ℤ → Plan → Prop} {G : List GoalFlow} {gs : List Goal} {β γ : Type}

/-- Two computations emit the same steps, up to the plans of calls. -/
abbrev Twins (K : Mode → ℤ → Plan → Prop) (G : List GoalFlow) (gs : List Goal)
    (x y : Emit β) : Prop :=
  Same (Emission.Twin K G gs) SameFailure x y

theorem twins_throw (e : Error) : Twins K G gs (throw e : Emit β) (throw e) :=
  agree_throw fun _ _ _ => rfl

theorem twins_lift_bind {x : Except Error γ} {f g : γ → Emit β}
    (h : ∀ b, x = .ok b → Twins K G gs (f b) (g b)) : Twins K G gs (lift x >>= f) (lift x >>= g) := by
  cases x with
  | ok b => exact h b rfl
  | error e => exact twins_throw e

theorem twins_lift (x : Except Error β) : Twins K G gs (lift x) (lift x) := by
  rw [← bind_pure (lift x)]
  exact twins_lift_bind fun b _ => same_pure

theorem twins_tell {depth depth' : ℕ} {line line' : String} :
    Twins K G gs (tell depth line) (tell depth' line') :=
  same_modify fun _ _ h => ⟨h.flow, h.marks, h.goals, h.types, h.steps, h.calls⟩

theorem twins_require (condition : Bool) (e : Error) :
    Twins K G gs (require condition e) (require condition e) :=
  Agree.ite (fun _ => same_pure) fun _ => twins_throw e

theorem twins_goalFlow {f g : GoalFlow → Emit β}
    (h : ∀ flow, G[j]? = some flow → Twins K G gs (f flow) (g flow)) :
    Twins K G gs (goalFlow j >>= f) (goalFlow j >>= g) := by
  simp only [goalFlow, bind_assoc]
  refine agree_get_bind fun e e' he => ?_
  rw [he.flow]
  refine twins_lift_bind fun flow hflow => h flow ?_
  rwa [Flow.goal_ok, he.marks] at hflow

theorem twins_variableFlow (v : String) : Twins K G gs (variableFlow v) (variableFlow v) :=
  agree_get_bind fun e e' h => by
    rw [h.flow]
    exact twins_lift _

theorem twins_modeOf {f g : Mode → Emit β}
    (h : ∀ mode, modeAt G gs j = .ok mode → Twins K G gs (f mode) (g mode)) :
    Twins K G gs (modeOf j >>= f) (modeOf j >>= g) := by
  simp only [modeOf, bind_assoc]
  refine agree_get_bind fun e e' he => ?_
  rw [he.flow, he.goals.1, he.goals.2, Flow.modeOf_eq, he.marks]
  exact twins_lift_bind h

theorem twins_goalText (j : ℕ) : Twins K G gs (goalText j) (goalText j) :=
  agree_get_bind fun e e' h => by
    rw [h.goals.1, h.goals.2]
    exact same_pure

theorem twins_connect (v : String) : Twins K G gs (connect v) (connect v) := by
  refine (twins_variableFlow v).bind fun flow => same_modify fun e e' h => ?_
  exact ⟨by rw [h.flow], h.marks, h.goals, h.types, h.steps, h.calls⟩

theorem twins_name {stem v suffix : String} :
    Twins K G gs (name stem v suffix) (name stem v suffix) := by
  refine (twins_variableFlow v).bind fun flow => Same.bind (same_modify fun e e' h => ?_)
    fun _ => same_pure
  exact ⟨h.flow, h.marks, h.goals, by rw [h.types], h.steps, h.calls⟩

theorem twins_typeOf (message : String) : Twins K G gs (typeOf message) (typeOf message) :=
  agree_get_bind fun e e' h => by
    rw [h.types]
    cases e.types.get? message with
    | none => exact twins_throw _
    | some type => exact same_pure

/-- Steps that differ in the plan that they call. -/
theorem twins_step (depth : ℕ) (source target : String) {s s' : Step} (hbare : s'.bare = s.bare)
    (hcalls : s.CallsAll K) (hcalls' : s'.CallsAll K) :
    Twins K G gs (step depth source target s) (step depth source target s') := by
  have hroute (s : Step) (i : StepInfo) (hi : i.target = s.target) : (s.setInfo i).bare = s.bare := by
    cases s with
    | act j a => simp only [Step.setInfo, Step.bare, hi]; rfl
    | call j x m d p => simp only [Step.setInfo, Step.bare, hi]; rfl
  have hkept (s : Step) (i : StepInfo) (hs : s.CallsAll K) : (s.setInfo i).CallsAll K := by
    cases s with
    | act j a => trivial
    | call j x m d p => exact hs
  have hall {ss : List Step} {s : Step} (hss : Step.EachCallsAll K ss) (hs : s.CallsAll K) :
      Step.EachCallsAll K (ss ++ [s]) := by
    rw [Step.eachCallsAll_iff] at hss ⊢
    intro i x m d q hq
    rcases mem_append.1 hq with hq | hq
    · exact hss i x m d q hq
    · rw [← mem_singleton.1 hq] at hs
      exact hs
  refine twins_tell.bind fun _ => same_modify fun e e' h => ?_
  refine ⟨h.flow, h.marks, h.goals, h.types, ?_, hall h.calls.1 (hkept s _ hcalls),
    hall h.calls.2 (hkept s' _ hcalls')⟩
  rw [map_append, map_append, h.steps]
  simp only [map_cons]
  have hs := hroute s { s.info with route := some (source, target) } rfl
  have hs' := hroute s' { s'.info with route := some (source, target) } rfl
  rw [hs, hs', hbare]

theorem twins_act {depth : ℕ} {source target message : String} {a : Action} {type : Option String} :
    Twins K G gs (act depth source target message a type)
      (act depth source target message a type) :=
  twins_step depth source target rfl trivial trivial

end Emit

namespace Messaging

open Emit

variable {K : Mode → ℤ → Plan → Prop} {G : List GoalFlow} {gs : List Goal} {c : Messaging}
  {body : Mode → Option Plan}

/-- Two ways to find plans find plans that are alike. -/
def Finds (K : Mode → ℤ → Plan → Prop) (c : Messaging) (body : Mode → Option Plan) (m : Mode) :
    Prop :=
  ∃ q q', c.body m = some q ∧ body m = some q' ∧ q.Alike q' ∧
    (K m c.depth q ∧ q.CallsAll K) ∧ K m c.depth q' ∧ q'.CallsAll K

/-- Both ways to find plans find them for all goals that rules define. -/
def Serves (K : Mode → ℤ → Plan → Prop) (c : Messaging) (body : Mode → Option Plan)
    (G : List GoalFlow) (gs : List Goal) : Prop :=
  ∀ j g m, G[j]? = some g → g.defined = true → modeAt G gs j = .ok m → c.Finds K body m

theorem twins_assigned (j : ℕ) (mode : Mode) (here v message : String) (depth : ℕ) :
    Twins K G gs (c.assigned j mode here v message depth)
      ({ c with body }.assigned j mode here v message depth) :=
  (twins_require _ _).bind fun _ => (twins_require _ _).bind fun _ => twins_act.bind_pure

/-- A call has the plan that is found for its mode. -/
theorem twins_carried {g : GoalFlow} {mode : Mode} (h : g.defined = true → c.Finds K body mode)
    (here v message source : String) (depth : ℕ) :
    Twins K G gs (c.carried g mode here v message source depth)
      ({ c with body }.carried g mode here v message source depth) := by
  refine Agree.ite (fun hdefined => ?_) fun _ => twins_act.bind_pure
  obtain ⟨q, q', hq, hq', halike, hcalls, hcalls'⟩ := h hdefined
  simp only [hq, hq']
  refine Same.bind (twins_step depth here v ?_ ?_ ?_) fun _ => same_pure
  · simp [Step.bare, halike.bare]
  · exact hcalls
  · exact hcalls'

theorem twins_weighed (mode : Mode) (here v message : String) (depth : ℕ) :
    Twins K G gs (c.weighed mode here v message depth)
      ({ c with body }.weighed mode here v message depth) :=
  (twins_typeOf _).bind fun _ => twins_act.bind_pure

theorem twins_summed (g : GoalFlow) (mode : Mode) (here v y message : String) (depth : ℕ) :
    Twins K G gs (summed g mode here v y message depth) (summed g mode here v y message depth) :=
  (twins_connect _).bind fun _ => (twins_require _ _).bind fun _ => (twins_typeOf _).bind fun _ =>
    twins_act.bind_pure

variable (hserves : c.Serves K body G gs) {ask ask' : String → Emit String}
  (hask : ∀ x, Twins K G gs (ask x) (ask' x))

include hserves hask in
theorem twins_toOutput {g : GoalFlow} (hg : G[j]? = some g) (v : String) (depth : ℕ) :
    Twins K G gs (c.toOutput ask g j v depth) ({ c with body }.toOutput ask' g j v depth) := by
  refine twins_name.bind fun message => twins_modeOf fun mode hmode =>
    (twins_goalText j).bind fun here => ?_
  refine Agree.ite (fun _ => twins_assigned j mode here v message depth) fun _ => ?_
  refine Agree.ite (fun _ => ?_) fun _ => ?_
  · exact (same_mapM fun x _ => hask x).bind fun sources => twins_act.bind_pure
  · refine (twins_lift _).bind fun x => (hask x).bind fun source => ?_
    exact twins_carried (fun hdefined => hserves j g mode hg hdefined hmode) here v message source
      depth

include hask in
theorem twins_toInput (g : GoalFlow) (j : ℕ) (v : String) (depth : ℕ) :
    Twins K G gs (c.toInput ask g j v depth) ({ c with body }.toInput ask' g j v depth) := by
  refine twins_name.bind fun message => twins_modeOf fun mode hmode =>
    (twins_goalText j).bind fun here => ?_
  refine Agree.ite (fun _ => twins_weighed mode here v message depth) fun _ => ?_
  refine (twins_lift _).bind fun y => (twins_variableFlow y).bind fun flow => ?_
  refine Agree.ite (fun _ => twins_summed g mode here v y message depth) fun _ => ?_
  exact (hask y).bind fun source => twins_act.bind_pure

theorem twins_partialName (goals : List (Option ℕ)) (j : ℕ) (v : String) (j' : Option ℕ) :
    Twins K G gs (partialName goals j v j') (partialName goals j v j') :=
  Agree.ite (fun _ => twins_name) fun _ => twins_name

include hserves in
/-- The induction is on the fuel of the search. -/
theorem twins_messages (fuel : ℕ) :
    (∀ j v depth, Twins K G gs (c.fromGoal fuel j v depth)
      ({ c with body }.fromGoal fuel j v depth)) ∧
    ∀ v j depth, Twins K G gs (c.fromVariable fuel v j depth)
      ({ c with body }.fromVariable fuel v j depth) := by
  induction fuel with
  | zero => exact ⟨fun _ _ _ => twins_throw _, fun _ _ _ => twins_throw _⟩
  | succ fuel ih =>
    obtain ⟨ihgoal, ihvariable⟩ := ih
    constructor
    · intro j v depth
      cases j with
      | none => exact twins_throw _
      | some j =>
        refine twins_goalFlow fun g hg => twins_tell.bind fun _ => ?_
        refine Agree.ite (fun _ => ?_) fun _ => ?_
        · exact Agree.ite (fun _ => same_pure) fun _ => twins_throw _
        refine Agree.ite (fun _ => ?_) fun _ => ?_
        · exact twins_toOutput hserves (fun x => ihvariable x j (depth + 1)) hg v depth
        refine Agree.ite (fun _ => ?_) fun _ => twins_throw _
        exact twins_toInput (fun x => ihvariable x j (depth + 1)) g j v depth
    · intro v j depth
      refine (twins_connect v).bind fun _ => (twins_variableFlow v).bind fun flow =>
        twins_tell.bind fun _ => ?_
      cases (flow.source :: flow.users.map some).filter (· ≠ some j) with
      | nil => exact twins_throw _
      | cons first rest =>
        refine (twins_goalText j).bind fun here => (ihgoal first v (depth + 1)).bind fun start => ?_
        refine same_foldlM (fun product j' _ => ?_) start
        exact (twins_partialName rest j v j').bind fun next => (ihgoal j' v (depth + 1)).bind
          fun factor => twins_act.bind_pure

include hserves in
theorem twins_unconnected (fuel extra : ℕ) (goals : List Goal) :
    Twins K G gs (c.unconnected fuel extra goals)
      ({ c with body }.unconnected fuel extra goals) := by
  refine same_foldlM (fun found v _ => (twins_variableFlow v).bind fun flow => ?_) []
  refine Agree.ite (fun _ => same_pure) fun _ => ?_
  exact ((twins_messages hserves fuel).2 v extra 1).bind_pure

theorem twins_weigh (weights : List String) (y output : String) :
    Twins K G gs (weigh weights y output) (weigh weights y output) := by
  refine same_foldlM (fun product weight _ => ?_) output
  refine Same.bind ?_ fun next => twins_act.bind_pure
  exact Agree.ite (fun _ => twins_name) fun _ => twins_name

/-- No plan has to be found for the extra goal. -/
theorem Serves.extra (h : c.Serves K body G gs) (hlength : G.length = gs.length) :
    c.Serves K body (G ++ [({} : GoalFlow)]) (gs ++ [extraGoal]) := by
  intro j g m hg hdefined hmode
  rw [getElem?_concat] at hg
  split at hg
  · obtain rfl := Option.some.inj hg
    cases hdefined
  · next hj =>
    refine h j g m hg hdefined ?_
    rw [← hmode]
    simp [modeAt, Flow.modeOf, Flow.goal, getElem?_concat, hj, hlength ▸ hj]

include hserves in
theorem agree_emit (hlength : G.length = gs.length) :
    Agree (Emission.Twin K G gs) c.emit { c with body }.emit
      (fun y e y' e' => y = y' ∧ Emission.Twin K (G ++ [({} : GoalFlow)]) (gs ++ [extraGoal]) e e')
      SameFailure := by
  refine agree_get_bind fun e e' he => ?_
  rw [he.goals.1, he.goals.2]
  have hstart : Twins K G gs (goalFlow 0 >>= fun g => lift (single g.outputs) >>= fun y =>
        c.fromVariable (fuelFor gs) y 0 1 >>= fun output => pure (y, output))
      (goalFlow 0 >>= fun g => lift (single g.outputs) >>= fun y =>
        { c with body }.fromVariable (fuelFor gs) y 0 1 >>= fun output => pure (y, output)) := by
    refine twins_goalFlow fun g _ => (twins_lift _).bind fun y => ?_
    exact ((twins_messages hserves (fuelFor gs)).2 y 0 1).bind_pure
  have hextra : Agree (Emission.Twin K G gs) addExtra addExtra
      (fun n e n' e' => n = n' ∧ Emission.Twin K (G ++ [({} : GoalFlow)]) (gs ++ [extraGoal]) e e')
      SameFailure := by
    refine agree_get_bind fun e e' he => ?_
    rw [he.goals.1, he.goals.2]
    refine Agree.bind (agree_modify fun e e' he => ?_) fun _ _ => agree_pure fun e e' he => ⟨rfl, he⟩
    exact ⟨by rw [he.flow], by rw [he.marks], by rw [he.goals.1, he.goals.2]; exact ⟨rfl, rfl⟩,
      he.types, he.steps, he.calls⟩
  have hserves' := hserves.extra hlength
  have hrest (y output : String) : Agree (Emission.Twin K G gs)
      (addExtra >>= fun extra => get >>= fun e =>
        c.unconnected (fuelFor gs) extra e.goals.tail >>= fun weights => weigh weights y output)
      (addExtra >>= fun extra => get >>= fun e =>
        { c with body }.unconnected (fuelFor gs) extra e.goals.tail >>= fun weights =>
          weigh weights y output)
      (fun y e y' e' => y = y' ∧ Emission.Twin K (G ++ [({} : GoalFlow)]) (gs ++ [extraGoal]) e e')
      SameFailure := by
    refine hextra.bind fun extra extra' => ?_
    rintro e e' ⟨rfl, he⟩
    refine agree_get_bind (fun e e' he => ?_) e e' he
    rw [he.goals.1, he.goals.2]
    exact (twins_unconnected hserves' _ _ _).bind fun weights => twins_weigh weights y output
  have hall := Agree.bind hstart (f := fun r => addExtra >>= fun extra => get >>= fun e =>
        c.unconnected (fuelFor gs) extra e.goals.tail >>= fun weights => weigh weights r.1 r.2)
    fun r r' => by
      rintro e e' ⟨rfl, he⟩
      exact hrest r.1 r.2 e e' he
  simpa only [bind_assoc, pure_bind] using hall

end Messaging

end BeliefLogic
