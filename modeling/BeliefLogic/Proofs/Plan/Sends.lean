import BeliefLogic.Proofs.Rule.Wiring
import BeliefLogic.Program.Compile

/-!
# Messages as derivations

A derivation says for each message which others are asked, which operations come out and what is
visited. All that is proved of messages is proved of derivations.
-/

namespace BeliefLogic

open Outcome

/-- What a step computes and where from, without numbers, types and plans. -/
inductive Operation where
  /-- Binds a variable to the value of an action. -/
  | act (target : String) (action : Action)
  /-- Binds a variable to the result of the plan of a mode. -/
  | call (target source : String) (mode : Mode)

def Operation.target : Operation → String
  | .act target _ | .call target _ _ => target

@[simp] theorem Operation.target_act (t : String) (a : Action) :
    (Operation.act t a).target = t := rfl

@[simp] theorem Operation.target_call (t x : String) (mode : Mode) :
    (Operation.call t x mode).target = t := rfl

/-- An operation that is not defined outside. -/
def Operation.IsInside (o : Operation) : Prop := ∀ t ss mode, o ≠ .act t (.plugin ss mode)

def Step.operation : Step → Operation
  | .act i a => .act i.target a
  | .call i x mode _ _ => .call i.target x mode

@[simp] theorem Step.target_operation (s : Step) : s.operation.target = s.target := by
  cases s <;> rfl

structure Circuit extends Wiring where
  mode? : ℕ → Option Mode
  /-- Whether rules define the relation of a goal. -/
  defined : ℕ → Bool

namespace Circuit

/-- The name of the message from a goal to a variable. -/
def message (c : Circuit) (j : ℕ) (v : String) : String :=
  (if v ∈ c.outputs j then "f" else "b") ++ "_" ++ v ++ Text.natural j

/-- The goals from which a variable asks messages for a goal. -/
def neighbours (c : Circuit) (v : String) (j : ℕ) : List (Option ℕ) :=
  (c.source v :: (Bins.listed (c.uses v)).map some).filter (· ≠ some j)

end Circuit

/-- The name of a product up to one factor, with others to follow: the last has its own. -/
def chainName {β : Type} [DecidableEq β] (last : String) (other : β → String) (b : β)
    (bs : List β) : String :=
  if some b = (b :: bs).getLast? then last else other b

/-- The name of a product of the messages of goals to a variable. -/
abbrev productName (v : String) (j : ℕ) : ℕ → List ℕ → String :=
  chainName ("fb" ++ "_" ++ v) fun g => "p" ++ "_" ++ v ++ (Text.natural j ++ Text.natural g)

inductive Request where
  | goal (j : ℕ) (v : String)
  | var (v : String) (j : ℕ)
  /-- The product with the messages from goals to a variable. -/
  | times (v : String) (j : ℕ) (product : String) (goals : List ℕ)

inductive Node where
  | goal (j : ℕ)
  | var (v : String)
  deriving DecidableEq

def Node.variables (ns : List Node) : List String :=
  ns.filterMap fun
    | .var v => some v
    | .goal _ => none

def Node.goals (ns : List Node) : List ℕ :=
  ns.filterMap fun
    | .goal j => some j
    | .var _ => none

/-- A circuit sends a message: its name, its operations, and the goals and variables visited. If the
message is to pass, all operations are plain, and no variable asks a goal twice. -/
inductive Sends (c : Circuit) (pass : Prop) :
    Request → String → List Operation → List Node → Prop where
  /-- Some operation on the way is defined outside. -/
  | outside {q m ops ns t ss mode} : ¬pass → .act t (.plugin ss mode) ∈ ops →
      Sends c pass q m ops ns
  | head {v} : v ∈ c.inputs 0 → Sends c pass (.goal 0 v) v [] [.goal 0]
  /-- A goal without inputs assigns a constant. -/
  | assigned {j v mode} : v ∈ c.outputs (j + 1) → c.inputs (j + 1) = [] →
      c.mode? (j + 1) = some mode → mode.functor = assignment → 2 ≤ mode.arity →
      mode.isOutput 0 = true → mode.isConst 1 = true →
      Sends c pass (.goal (j + 1) v) (c.message (j + 1) v)
        [.act (c.message (j + 1) v) (.oneHot mode (mode.args.getD 1 ""))] [.goal (j + 1)]
  /-- A goal carries its input to its output. -/
  | forward {j v x mode m ops ns} : v ∈ c.outputs (j + 1) → c.inputs (j + 1) = [x] →
      (pass → x ∉ c.outputs (j + 1)) → c.mode? (j + 1) = some mode → c.defined (j + 1) = false →
      (pass → mode.arity = 2) → Sends c pass (.var x (j + 1)) m ops ns →
      Sends c pass (.goal (j + 1) v) (c.message (j + 1) v)
        (ops ++ [.act (c.message (j + 1) v) (.product m mode false)])
        (.goal (j + 1) :: .var x :: ns)
  /-- A goal that rules define calls their plan. -/
  | call {j v x mode m ops ns} : v ∈ c.outputs (j + 1) → c.inputs (j + 1) = [x] →
      (pass → x ∉ c.outputs (j + 1)) → c.mode? (j + 1) = some mode → c.defined (j + 1) = true →
      (pass → mode.arity = 2) → Sends c pass (.var x (j + 1)) m ops ns →
      Sends c pass (.goal (j + 1) v) (c.message (j + 1) v)
        (ops ++ [.call (c.message (j + 1) v) m mode]) (.goal (j + 1) :: .var x :: ns)
  /-- A goal without outputs weighs its input. -/
  | row {j v mode} : v ∈ c.inputs (j + 1) → c.outputs (j + 1) = [] →
      c.mode? (j + 1) = some mode → (pass → mode.arity = 1) →
      Sends c pass (.goal (j + 1) v) (c.message (j + 1) v)
        [.act (c.message (j + 1) v) (.vector mode)] [.goal (j + 1)]
  /-- A goal whose output is not used adds up the weights of its outputs. -/
  | preimage {j v y mode} : v ∈ c.inputs (j + 1) → v ∉ c.outputs (j + 1) →
      c.outputs (j + 1) = [y] → c.uses y = [] → c.mode? (j + 1) = some mode →
      c.defined (j + 1) = false → (pass → mode.arity = 2) →
      Sends c pass (.goal (j + 1) v) (c.message (j + 1) v)
        [.act (c.message (j + 1) v) (.preimage mode)] [.goal (j + 1), .var y]
  /-- A goal carries what its output gets back to its input. -/
  | backward {j v y mode m ops ns} : v ∈ c.inputs (j + 1) → v ∉ c.outputs (j + 1) →
      c.outputs (j + 1) = [y] → c.uses y ≠ [] → c.mode? (j + 1) = some mode →
      (pass → mode.arity = 2) → Sends c pass (.var y (j + 1)) m ops ns →
      Sends c pass (.goal (j + 1) v) (c.message (j + 1) v)
        (ops ++ [.act (c.message (j + 1) v) (.product m mode true)])
        (.goal (j + 1) :: .var y :: ns)
  /-- A variable multiplies what it gets from all other goals. -/
  | ask {v j g gs m m' ops ops' ns ns'} : c.neighbours v j = some g :: gs.map some →
      (pass → (g :: gs).Nodup) → Sends c pass (.goal g v) m ops ns →
      Sends c pass (.times v j m gs) m' ops' ns' →
      Sends c pass (.var v j) m' (ops ++ ops') (ns ++ ns')
  | done {v j m} : Sends c pass (.times v j m []) m [] []
  /-- The product with the message from one more goal. -/
  | factor {v j p g gs m m' ops ops' ns ns'} : Sends c pass (.goal g v) m ops ns →
      Sends c pass (.times v j (productName v j g gs) gs) m' ops' ns' →
      Sends c pass (.times v j p (g :: gs)) m'
        (ops ++ .act (productName v j g gs) (.hadamard p m) :: ops') (ns ++ ns')

abbrev Passes (c : Circuit) : Request → String → List Operation → List Node → Prop := Sends c True

@[simp] theorem Node.variables_append (ns ns' : List Node) :
    Node.variables (ns ++ ns') = Node.variables ns ++ Node.variables ns' := by
  simp [Node.variables]

@[simp] theorem Node.variables_nil : Node.variables [] = [] := rfl

@[simp] theorem Node.variables_goal (j : ℕ) (ns : List Node) :
    Node.variables (.goal j :: ns) = Node.variables ns := rfl

@[simp] theorem Node.variables_var (v : String) (ns : List Node) :
    Node.variables (.var v :: ns) = v :: Node.variables ns := rfl

/-- Steps were emitted and variables connected; the rest stayed. -/
structure Emission.Grows (e e' : Emission) (steps : List Step) (vars : List String) : Prop where
  goals : e'.goals = e.goals
  steps : e'.steps = e.steps ++ steps
  flowGoals : e'.flow.goals = e.flow.goals
  flows : ∀ v, e'.flow.variableFlows.get? v = (e.flow.variableFlows.get? v).map fun f =>
    if v ∈ vars then { f with connected := true } else f

namespace Emission.Grows

variable {e e' e'' : Emission} {ss ss' : List Step} {vs vs' : List String}

theorem refl (e : Emission) : e.Grows e [] [] :=
  ⟨rfl, by simp, rfl, fun v => by simp⟩

theorem trans (h : e.Grows e' ss vs) (h' : e'.Grows e'' ss' vs') :
    e.Grows e'' (ss ++ ss') (vs ++ vs') := by
  refine ⟨h'.goals.trans h.goals, ?_, h'.flowGoals.trans h.flowGoals, fun v => ?_⟩
  · rw [h'.steps, h.steps, List.append_assoc]
  · rw [h'.flows, h.flows, Option.map_map]
    congr 1
    funext f
    by_cases h1 : v ∈ vs <;> by_cases h2 : v ∈ vs' <;> simp [h1]

theorem wiring_eq (h : e.Grows e' ss vs) : e'.flow.wiring = e.flow.wiring := by
  unfold Flow.wiring
  congr 1
  · simp [h.flowGoals]
  · simp [h.flowGoals]
  · funext v
    rw [h.flows]
    cases e.flow.variableFlows.get? v with
    | none => rfl
    | some f => simp only [Option.map_some]; split <;> rfl
  · funext v
    rw [h.flows]
    cases e.flow.variableFlows.get? v with
    | none => rfl
    | some f => simp only [Option.map_some]; split <;> rfl

end Emission.Grows

/-- The state of an emission agrees with a circuit. -/
structure Emission.Matches (e : Emission) (c : Circuit) : Prop where
  wiring : e.flow.wiring = c.toWiring
  defined : ∀ j g, e.flow.goal j = .ok g → g.defined = c.defined j
  mode : ∀ j m, (c.inputs j ≠ [] ∨ c.outputs j ≠ []) → e.flow.modeOf e.goals j = .ok m →
    c.mode? j = some m

theorem Emission.Matches.grows {e e' : Emission} {c : Circuit} {ss : List Step} {vs : List String}
    (h : e.Matches c) (hg : e.Grows e' ss vs) : e'.Matches c := by
  have hgoal (j : ℕ) : e'.flow.goal j = e.flow.goal j := by simp [Flow.goal, hg.flowGoals]
  refine ⟨hg.wiring_eq.trans h.wiring, fun j g hj => h.defined j g (hgoal j ▸ hj), fun j m hne hm =>
    h.mode j m hne ?_⟩
  simpa [Flow.modeOf, hgoal, hg.goals] using hm

namespace Emit

variable {e e' : Emission} {u : Unit} {d j : ℕ} {v : String}

theorem goalFlow_ok {g : GoalFlow} (h : goalFlow j e = .ok g e') :
    e = e' ∧ e.flow.goal j = .ok g := by
  simp only [goalFlow, get_bind, lift_ok] at h
  obtain ⟨hg, rfl⟩ := h
  exact ⟨rfl, hg⟩

theorem variableFlow_ok {f : VariableFlow} (h : variableFlow v e = .ok f e') :
    e = e' ∧ e.flow.variableFlows.get? v = some f := by
  simp only [variableFlow, get_bind, lift_ok, Flow.variableFlow_ok] at h
  obtain ⟨hf, rfl⟩ := h
  exact ⟨rfl, hf⟩

theorem modeOf_ok {m : Mode} (h : modeOf j e = .ok m e') :
    e = e' ∧ e.flow.modeOf e.goals j = .ok m := by
  simp only [modeOf, get_bind, lift_ok] at h
  obtain ⟨hm, rfl⟩ := h
  exact ⟨rfl, hm⟩

theorem goalText_ok {t : String} (h : goalText j e = .ok t e') : e = e' := by
  obtain ⟨_, _, rfl⟩ := h
  rfl

theorem typeOf_ok {m : String} {t : Option String} (h : typeOf m e = .ok t e') : e = e' := by
  simp only [typeOf, get_bind] at h
  generalize e.types.get? m = known at h
  cases known with
  | some type => exact (pure_ok.1 h).2
  | none => exact (throw_ok.1 h).elim

theorem tell_ok {line : String} (h : tell d line e = .ok u e') : e.Grows e' [] [] := by
  cases modify_ok.1 h
  exact ⟨rfl, by simp, rfl, fun v => by simp⟩

theorem name_ok {stem suffix m : String} (h : name stem v suffix e = .ok m e') :
    m = stem ++ "_" ++ v ++ suffix ∧ e.Grows e' [] [] := by
  simp only [name, bind_ok, modify_ok] at h
  obtain ⟨f, e1, hf, _, _, rfl, rfl, rfl⟩ := h
  obtain ⟨rfl, -⟩ := variableFlow_ok hf
  exact ⟨rfl, rfl, by simp, rfl, fun v => by simp⟩

theorem connect_ok (h : connect v e = .ok u e') : e.Grows e' [] [v] := by
  simp only [connect, bind_ok, modify_ok] at h
  obtain ⟨f, e1, hf, rfl⟩ := h
  obtain ⟨rfl, hget⟩ := variableFlow_ok hf
  refine ⟨rfl, by simp, rfl, fun u => ?_⟩
  rw [Flow.get?_setVariable]
  by_cases huv : v = u
  · subst huv; simp [hget]
  · simp [huv, Ne.symm huv]

theorem step_ok {source target : String} {s : Step} (h : step d source target s e = .ok u e') :
    ∃ s', e.Grows e' [s'] [] ∧ s'.operation = s.operation ∧
      (∀ i x m k p, s = .call i x m k p → ∃ i', s' = .call i' x m k p) := by
  simp only [step, bind_ok, modify_ok] at h
  obtain ⟨_, e1, ht, rfl⟩ := h
  have ht := tell_ok ht
  refine ⟨s.setInfo { s.info with route := some (source, target) }, ?_, ?_, ?_⟩
  · refine ⟨ht.goals, ?_, ht.flowGoals, ht.flows⟩
    have := ht.steps
    simp_all
  · cases s <;> rfl
  · rintro i x m k p rfl
    exact ⟨_, rfl⟩

theorem act_ok {source target message : String} {a : Action} {type : Option String}
    (h : act d source target message a type e = .ok u e') :
    ∃ i, e.Grows e' [.act i a] [] ∧ i.target = message := by
  obtain ⟨s', hg, hop, -⟩ := step_ok h
  cases s' with
  | act i a' =>
    obtain ⟨rfl, rfl⟩ := hop
    exact ⟨i, hg, rfl⟩
  | call i x m k p => cases hop

end Emit

end BeliefLogic
