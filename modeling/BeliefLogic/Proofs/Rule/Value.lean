import BeliefLogic.Proofs.Plan.Bare
import BeliefLogic.Proofs.Program.Planned
import BeliefLogic.Proofs.Rule.Weight

/-!
# Values of planned rules

The steps of a planned rule satisfy their equations, so its result is the row carried by its weight.
-/

namespace BeliefLogic

open Outcome Bindings List

variable {ops : List Operation} {u v x : String} {c : Circuit} {mode : Mode}

theorem Circuit.isVariableName_message (c : Circuit) (j : ℕ) (v : String) :
    isVariableName (c.message j v) = false := by
  unfold message
  split
  all_goals
    simp only [String.append_assoc]
    exact Messaging.isVariableName_append (by decide)

theorem isVariableName_productName (v : String) (j g : ℕ) (gs : List ℕ) :
    isVariableName (productName v j g gs) = false := by
  unfold productName chainName
  split
  all_goals
    simp only [String.append_assoc]
    exact Messaging.isVariableName_append (by decide)

theorem isVariableName_weightName (y m : String) (ms : List String) :
    isVariableName (weightName y m ms) = false := by
  unfold weightName chainName
  split
  all_goals
    simp only [String.append_assoc]
    exact Messaging.isVariableName_append (by decide)

/-- Where an operation of a circuit comes from. -/
inductive Circuit.Arises (c : Circuit) : Operation → Prop where
  | assigned {j v mode} : v ∈ c.outputs (j + 1) → c.inputs (j + 1) = [] →
      c.mode? (j + 1) = some mode → mode.functor = assignment → 2 ≤ mode.arity →
      mode.isConst 1 = true →
      c.Arises (.act (c.message (j + 1) v) (.oneHot mode (mode.args.getD 1 "")))
  /-- From a goal that carries its input to its output. -/
  | forward {j v x mode m} : v ∈ c.outputs (j + 1) → c.inputs (j + 1) = [x] →
      c.mode? (j + 1) = some mode → c.defined (j + 1) = false →
      c.Arises (.act (c.message (j + 1) v) (.product m mode false))
  /-- From a goal that calls the plan of its relation. -/
  | call {j v x mode m} : v ∈ c.outputs (j + 1) → c.inputs (j + 1) = [x] →
      c.mode? (j + 1) = some mode → c.defined (j + 1) = true →
      c.Arises (.call (c.message (j + 1) v) m mode)
  | row {j v mode} : v ∈ c.inputs (j + 1) → c.outputs (j + 1) = [] →
      c.mode? (j + 1) = some mode → c.Arises (.act (c.message (j + 1) v) (.vector mode))
  | preimage {j v y mode} : v ∈ c.inputs (j + 1) → c.outputs (j + 1) = [y] →
      c.mode? (j + 1) = some mode → c.defined (j + 1) = false →
      c.Arises (.act (c.message (j + 1) v) (.preimage mode))
  /-- From a goal that carries back to its input. -/
  | backward {j v y mode m} : v ∈ c.inputs (j + 1) → c.outputs (j + 1) = [y] →
      c.mode? (j + 1) = some mode →
      c.Arises (.act (c.message (j + 1) v) (.product m mode true))
  /-- From a variable that multiplies messages. -/
  | factor {next p m} : isVariableName next = false → c.Arises (.act next (.hadamard p m))
  /-- From a part of the rule that weighs the result. -/
  | weight {next p m} : isVariableName next = false → c.Arises (.act next (.weighted p m))

theorem Sends.arises {q : Request} {m : String} {ns : List Node}
    (h : Sends c False q m ops ns) (hinside : ∀ o ∈ ops, o.IsInside) : ∀ o ∈ ops, c.Arises o := by
  induction h with
  | outside _ hmem => exact absurd rfl (hinside _ hmem _ _ _)
  | head _ => simp
  | assigned hv hin hm hf ha _ hc =>
    exact forall_mem_singleton.2 (.assigned hv hin hm hf ha hc)
  | row hv hout hm => exact forall_mem_singleton.2 (.row hv hout hm)
  | preimage hv _ hout _ hm hd => exact forall_mem_singleton.2 (.preimage hv hout hm hd)
  | done => simp
  | forward hv hin _ hm hd _ _ ih =>
    rw [forall_mem_append] at hinside ⊢
    exact ⟨ih hinside.1, forall_mem_singleton.2 (.forward hv hin hm hd)⟩
  | call hv hin _ hm hd _ _ ih =>
    rw [forall_mem_append] at hinside ⊢
    exact ⟨ih hinside.1, forall_mem_singleton.2 (.call hv hin hm hd)⟩
  | backward hv _ hout _ hm _ _ ih =>
    rw [forall_mem_append] at hinside ⊢
    exact ⟨ih hinside.1, forall_mem_singleton.2 (.backward hv hout hm)⟩
  | ask _ _ _ _ ih ih' =>
    rw [forall_mem_append] at hinside ⊢
    exact ⟨ih hinside.1, ih' hinside.2⟩
  | factor _ _ ih ih' =>
    rw [forall_mem_append, forall_mem_cons] at hinside ⊢
    exact ⟨ih hinside.1, .factor (isVariableName_productName ..), ih' hinside.2.2⟩

theorem SendsRest.arises {body : List Goal} {extra : ℕ} {seen ms : List String}
    {nss : List (List Node)} (h : SendsRest c body extra seen ms ops nss)
    (hinside : ∀ o ∈ ops, o.IsInside) : ∀ o ∈ ops, c.Arises o := by
  induction h with
  | done => simp
  | more _ _ hsend _ ih =>
    rw [forall_mem_append] at hinside ⊢
    exact ⟨hsend.arises hinside.1, ih hinside.2⟩

theorem Weighs.arises (c : Circuit) {ms : List String} {y p out : String}
    (h : Weighs y ms p out ops) : ∀ o ∈ ops, c.Arises o := by
  induction h with
  | done => simp
  | more _ ih => exact forall_mem_cons.2 ⟨.weight (isVariableName_weightName ..), ih⟩

theorem Emits.arises {body : List Goal} {out : String} (h : Emits c body out ops)
    (hinside : ∀ o ∈ ops, o.IsInside) : ∀ o ∈ ops, c.Arises o := by
  obtain ⟨-, hsend, hrest, -, hweigh⟩ := h
  rw [forall_mem_append, forall_mem_append] at hinside ⊢
  exact ⟨⟨hsend.arises hinside.1.1, hrest.arises hinside.1.2⟩, hweigh.arises c⟩

/-- A call comes from a goal that rules define. -/
theorem Circuit.Arises.goal_of_call {t m : String}
    (h : c.Arises (.call t m mode)) :
    ∃ j v x, v ∈ c.outputs (j + 1) ∧ c.inputs (j + 1) = [x] ∧ c.mode? (j + 1) = some mode ∧
      c.defined (j + 1) = true := by
  generalize ho : Operation.call t m mode = o at h
  cases h with
  | call hv hin hm hd =>
    cases ho
    exact ⟨_, _, _, hv, hin, hm, hd⟩
  | _ => cases ho

theorem Circuit.Arises.isVariableName_target {o : Operation} (h : c.Arises o) :
    isVariableName o.target = false := by
  cases h with
  | factor hnext => exact hnext
  | weight hnext => exact hnext
  | _ => exact c.isVariableName_message _ _

/-- A head with one argument given and one computed. -/
theorem Flow.headArgs_single {args : List String}
    (hin : Flow.headArgs mode true args 0 = [u]) (hout : Flow.headArgs mode false args 0 = [v]) :
    (args = [u, v] ∧ mode.isInput 0 = true ∧ mode.isInput 1 = false) ∨
      (args = [v, u] ∧ mode.isInput 0 = false ∧ mode.isInput 1 = true) := by
  have hlen : args.length = 2 := by
    have h := length_eq_length_filter_add (l := args.zipIdx 0)
      (fun a : String × ℕ => mode.isInput a.2 == true)
    have hin := congrArg List.length hin
    have hout := congrArg List.length hout
    simp only [Flow.headArgs, length_map] at hin hout
    have hnot : (fun a : String × ℕ => !(mode.isInput a.2 == true)) =
        fun a => mode.isInput a.2 == false := by
      funext a
      cases mode.isInput a.2 <;> rfl
    rw [hnot, hin, hout, length_zipIdx] at h
    exact h
  obtain ⟨a, b, rfl⟩ := length_eq_two.1 hlen
  cases h0 : mode.isInput 0 <;> cases h1 : mode.isInput 1 <;>
    simp_all [Flow.headArgs]

/-- Whether rules define the relation of a goal. -/
def Program.definesGoal (p : Program) (g : Goal) : Bool := p.defines ⟨g⟩

namespace Circuit.Analyses

variable {p : Program} {r : Rule} {head : Goal} {body : List Goal}
  {j : ℕ} {m : Mode} (h : c.Analyses p mode r head body)

include h

theorem exists_goal (hm : c.mode? (j + 1) = some m) : ∃ g, body[j]? = some g := by
  refine Option.ne_none_iff_exists'.1 fun hg => ?_
  rw [h.mode_none j (List.getElem?_eq_none_iff.1 hg)] at hm
  cases hm

/-- A circuit of a rule with one input describes it. -/
theorem describes (hu : c.inputs 0 = [u]) :
    ∃ v, c.Describes u v body ∧
      ((head.args = [u, v] ∧ mode.isInput 0 = true ∧ mode.isInput 1 = false) ∨
        (head.args = [v, u] ∧ mode.isInput 0 = false ∧ mode.isInput 1 = true)) := by
  obtain ⟨v, hv⟩ := length_eq_one_iff.1 h.single_output
  have hcases := Flow.headArgs_single (h.inputs_head ▸ hu) (h.outputs_head ▸ hv)
  have hne : u ≠ v := by
    have := h.nodup
    rcases hcases with ⟨hargs, -⟩ | ⟨hargs, -⟩
    · simpa [hargs] using this
    · simpa [hargs, eq_comm] using this
  refine ⟨v, ⟨h.coherent, h.covers, hu, hv, hne, fun j m hm => ?_⟩, hcases⟩
  obtain ⟨g, hg⟩ := h.exists_goal hm
  obtain ⟨m', hm', hf, hargs, hres, -⟩ := h.mode_eq j g hg
  obtain rfl := Option.mem_unique hm hm'
  exact ⟨g, hg, hf, hargs, hres⟩

/-- Goals of relations that rules define are marked. -/
theorem defined_eq {g : Goal} (hg : body[j]? = some g) :
    c.defined (j + 1) = p.definesGoal g := by
  obtain ⟨m, -, hf, hargs, -, hdef⟩ := h.mode_eq j g hg
  have hkey : m.goal.key = g.key := by
    have hlen : m.goal.args.length = g.args.length := by
      simpa [Mode.args] using congrArg List.length hargs
    rw [Goal.key, Goal.key, Goal.arity, hlen, ← hf]
    rfl
  rw [hdef, Program.defines, Program.rulesFor?, hkey]
  rfl

/-- Every goal has a variable, if defined relations have two arguments. -/
theorem variableNames_ne_nil (hassign : ∀ g ∈ body, g.WellAssigned)
    (hplugin : ∀ m, p.plugins.has m = false)
    (hbinary : ∀ g ∈ body, p.definesGoal g = true → g.arity = 2) :
    ∀ g ∈ body, g.variableNames ≠ [] := by
  intro g hg hno
  obtain ⟨j, hj⟩ := getElem?_of_mem hg
  obtain ⟨m, hm, -, -, -, hdef⟩ := h.mode_eq j g hj
  obtain ⟨hne, hcases⟩ := h.grounded j g m hj hm hno
  rcases hcases with hf | ⟨hone, hdefines⟩
  · obtain ⟨a, ha⟩ := exists_mem_of_ne_nil _ hne
    have hnone (a : String) (ha : a ∈ g.args) : isVariableName a = false := by
      by_contra hvar
      have : a ∈ g.variableNames := mem_filter.2 ⟨ha, by simpa using hvar⟩
      simp [hno] at this
    rcases hassign g hg hf with hall | ⟨v, b, rest, hform, -, hv, -⟩
    · exact absurd (hall a ha) (by simp [hnone a ha])
    · exact absurd hv (by simp [hnone v (by simp [hform])])
  · rw [hplugin m, ← hdef, h.defined_eq hj] at hdefines
    have := hbinary g hg (hdefines.resolve_left (by simp))
    omega

theorem goal_of_mode (hm : c.mode? (j + 1) = some m) :
    ∃ g, body[j]? = some g ∧ m.functor = g.functor ∧
      m.arity = g.arity ∧ m.args = g.args.map (c.direction (j + 1)) ∧
      c.defined (j + 1) = p.definesGoal g ∧ p.defines m = p.definesGoal g := by
  obtain ⟨g, hg⟩ := h.exists_goal hm
  obtain ⟨m', hm', hf, hargs, -, hdef⟩ := h.mode_eq j g hg
  obtain rfl := Option.mem_unique hm hm'
  have harity : m.arity = g.arity := by
    simpa [Mode.args, Mode.arity, Goal.arity] using congrArg List.length hargs
  exact ⟨g, hg, hf, harity, hargs, h.defined_eq hg, hdef ▸ h.defined_eq hg⟩

/-- A goal that has an input and an output has two variables. -/
theorem two_le_variableNames {g : Goal} (hg : body[j]? = some g) {y : String}
    (hx : x ∈ c.inputs (j + 1)) (hy : y ∈ c.outputs (j + 1)) : 2 ≤ g.variableNames.length := by
  have hmem (w : String) (hw : w ∈ c.inputs (j + 1) ∨ w ∈ c.outputs (j + 1)) :
      w ∈ g.variableNames := by
    obtain ⟨g', hg', hw⟩ := (h.covers.mem_iff j w).1 hw
    obtain rfl := Option.mem_unique hg hg'
    exact hw
  have hx' := hmem x (.inl hx)
  have hy' := hmem y (.inr hy)
  by_contra hlt
  have hone : g.variableNames = [x] := by
    match hvars : g.variableNames with
    | [] => simp [hvars] at hx'
    | [w] => simpa [hvars, eq_comm] using hx'
    | _ :: _ :: _ => simp [hvars] at hlt
  obtain rfl : y = x := by simpa [hone] using hy'
  exact h.covers.separate j g hg (by simp [hone]) y hx hy

/-- A goal that calls a plan gives one argument and computes the other. -/
theorem args_of_call (hbinary : ∀ g ∈ body, p.definesGoal g = true → g.arity = 2)
    (hm : c.mode? (j + 1) = some m) (hd : c.defined (j + 1) = true) (hx : x ∈ c.inputs (j + 1))
    (hv : v ∈ c.outputs (j + 1)) :
    (∃ g ∈ body, p.definesGoal g = true ∧ m.functor = g.functor) ∧ m.arity = 2 ∧
      ∀ a ∈ m.args, a = "i" ∨ a = "o" := by
  obtain ⟨g, hg, hf, harity, hargs, hdefined, -⟩ := h.goal_of_mode hm
  have hdef : p.definesGoal g = true := hdefined ▸ hd
  have hlen : g.arity = 2 := hbinary g (mem_of_getElem? hg) hdef
  have hall : ∀ a ∈ g.args, isVariableName a = true :=
    length_filter_eq_length_iff.1
      (le_antisymm (length_filter_le _ _) (hlen.le.trans (h.two_le_variableNames hg hx hv)))
  refine ⟨⟨g, mem_of_getElem? hg, hdef, hf⟩, harity.trans hlen, fun a ha => ?_⟩
  rw [hargs] at ha
  obtain ⟨w, hw, rfl⟩ := mem_map.1 ha
  have hstands := (h.covers.mem_iff j w).2 ⟨g, hg, mem_filter.2 ⟨hw, hall w hw⟩⟩
  unfold direction
  split
  · exact .inl rfl
  · next hin => exact .inr (if_pos (hstands.resolve_left hin))

theorem not_defined_of_stores {α : Type} {db : Database α}
    (hapart : ∀ g ∈ body, p.definesGoal g = true → ¬db.Stores ⟨g.functor, g.arity⟩)
    (hm : c.mode? (j + 1) = some m) (hs : db.Stores m.predicate) : c.defined (j + 1) = false := by
  obtain ⟨g, hg, hf, harity, -, hdefined, -⟩ := h.goal_of_mode hm
  have hpred : m.predicate = ⟨g.functor, g.arity⟩ := by simp [Mode.predicate, hf, harity]
  rw [hdefined, ← Bool.not_eq_true]
  exact fun hd => hapart g (mem_of_getElem? hg) hd (hpred ▸ hs)

end Circuit.Analyses

/-- Weights that rules give fit a program: they are for relations that are defined and not stored.
-/
structure Program.Interprets {α : Type} (p : Program) (db : Database α)
    (rules : String → Option (ℕ → ℕ → α)) (body : List Goal) : Prop where
  plugins : ∀ m, p.plugins.has m = false
  assigned : ∀ g ∈ body, g.WellAssigned
  binary : ∀ g ∈ body, p.definesGoal g = true → g.arity = 2
  rules : ∀ g ∈ body, g.arity = 2 → p.definesGoal g = (rules g.functor).isSome
  apart : ∀ g ∈ body, p.definesGoal g = true → ¬db.Stores ⟨g.functor, g.arity⟩

theorem Program.Interprets.perm {α : Type} {p : Program} {db : Database α}
    {rules : String → Option (ℕ → ℕ → α)} {body body' : List Goal} (h : p.Interprets db rules body)
    (hperm : body'.Perm body) : p.Interprets db rules body' where
  plugins := h.plugins
  assigned g hg := h.assigned g (hperm.mem_iff.1 hg)
  binary g hg := h.binary g (hperm.mem_iff.1 hg)
  rules g hg := h.rules g (hperm.mem_iff.1 hg)
  apart g hg := h.apart g (hperm.mem_iff.1 hg)

variable {α : Type} [ExactScalar α] {s : Settings α} {db : Database α} {n : ℕ} {m : Matrix α}
  {t : Step} {y : String}

/-- A plan carries single rows with weights. -/
def Plan.Carries (s : Settings α) (db : Database α) (n : ℕ) (p : Plan) (w : ℕ → ℕ → α) : Prop :=
  ∀ x m, x.Shaped 1 n → p.result s db [x] = .ok m →
    m.Shaped 1 n ∧ ∀ k < n, m.entry 0 k = ∑ i ∈ Finset.range n, x.entry 0 i * w i k

namespace Step

/-- The called plan carries single rows with the weights of its mode. -/
def CallCarries (s : Settings α) (db : Database α) (n : ℕ) (called : Mode → ℕ → ℕ → α) :
    Step → Prop
  | .act _ _ => True
  | .call _ _ m _ q => q.Carries s db n (called m)

variable {called : Mode → ℕ → ℕ → α} {b b' : Bindings α}

/-- The value of a step on single rows agrees with its operation. -/
theorem holds_of_result (hdb : db.Regular n) (hb : b.Single n)
    (hcall : t.CallCarries s db n called) (h : t.result s db b = .ok m) :
    m.Shaped 1 n ∧ (b.value t.target = .ok m → t.operation.Holds db n called (b.vector 0)) := by
  cases t with
  | act i a =>
    obtain ⟨hs, he⟩ := Action.value_of_ok hdb hb h
    refine ⟨hs, fun hval k _ => ?_⟩
    have hval : b.value i.target = .ok m := hval
    rw [vector_of_value hval, hs.spread_single, he]
  | call i x mode d q =>
    obtain ⟨source, hx, h⟩ := then_ok.1 h
    have hsource : source.Shaped 1 n := hb x source hx
    obtain ⟨hs, he⟩ := hcall source m hsource h
    refine ⟨hs, fun hval k hk => ?_⟩
    have hval : b.value i.target = .ok m := hval
    rw [vector_of_value hval, hs.spread_single, he k hk,
      vector_of_value hx]
    simp [hsource.spread_single]

theorem bindAll_rows (hdb : db.Regular n) {ts : List Step}
    (hcall : ∀ t ∈ ts, t.CallCarries s db n called) (hb : b.Single n)
    (h : Step.bindAll s db ts b = .ok b') : b'.Single n := by
  induction ts generalizing b with
  | nil =>
    obtain rfl : b = b' := by simpa [Step.bindAll] using h
    exact hb
  | cons t ts ih =>
    obtain ⟨m, hm, h⟩ := then_ok.1 h
    obtain ⟨hfirst, hrest⟩ := forall_mem_cons.1 hcall
    exact ih hrest (hb.bind t.target (holds_of_result hdb hb hfirst hm).1) h

theorem result_of_bindAll {ts : List Step} (h : Step.bindAll s db ts b = .ok b') :
    ∀ t ∈ ts, ∃ b1 m, t.result s db b1 = .ok m := by
  induction ts generalizing b with
  | nil => simp
  | cons t ts ih =>
    obtain ⟨m, hm, h⟩ := then_ok.1 h
    exact forall_mem_cons.2 ⟨⟨b, m, hm⟩, ih h⟩

theorem fits_of_result (hdb : db.Regular n) {a : Action} (ht : t.operation = .act x a)
    (h : t.result s db b = .ok m) : a.Fits db := by
  cases t with
  | act i a' =>
    obtain ⟨-, rfl⟩ : i.target = x ∧ a' = a := by simpa [Step.operation] using ht
    exact (Action.fits_of_ok hdb h).1
  | call i y m e q => cases ht

/-- A step with a value is plain, if calls have two arguments. -/
theorem plain_of_result (hdb : db.Regular n) (h : t.result s db b = .ok m)
    (hcall : ∀ i x mode d q, t = .call i x mode d q → mode.arity = 2) : t.operation.Plain := by
  cases t with
  | act i a =>
    have hfit := fits_of_result hdb rfl h
    cases a with
    | preimage mode =>
      obtain ⟨m, hm⟩ := hfit
      exact (hdb.preimage_ok hm).1.1
    | vector mode =>
      obtain ⟨x, hx⟩ := hfit
      exact (hdb.rowOperand_ok hx).1.1
    | product source mode transpose =>
      obtain ⟨x, hx⟩ := hfit
      exact (hdb.operand_ok hx).1.1
    | plugin sources mode => exact hfit
    | _ => exact trivial
  | call i x mode d q => exact hcall i x mode d q rfl

end Step

/-- The steps that a plan ran to get to its result. -/
theorem Plan.runs_of_result {info : PlanInfo} {xs : List String} {steps : List Step} {r : Rule}
    (hdist : (Plan.sequence info xs y steps r).isDistinct = true) {x : Matrix α}
    (hm : Plan.result s db [x] (.sequence info xs y steps r) = .ok m) :
    ∃ u b', xs = [u] ∧ (steps.map Step.target).Nodup ∧ (∀ t ∈ steps, t.isDistinct = true) ∧
      Step.bindAll s db steps (start u x) = .ok b' ∧ b'.value y = .ok m := by
  rw [Plan.isDistinct, Bool.and_eq_true, decide_eq_true_eq, Step.areDistinct_iff] at hdist
  rw [Plan.result] at hm
  split at hm
  · next hlen =>
    obtain ⟨u, rfl⟩ := length_eq_one_iff.1 hlen
    obtain ⟨b', hb', hm⟩ := then_ok.1 hm
    exact ⟨u, b', rfl, hdist.1, hdist.2, hb', hm⟩
  · cases hm

section

variable {body : List Goal} {out : String} {steps : List Step}
  (h : Emits c body out (steps.map Step.operation))
  (hran : ∀ t ∈ steps, ∃ b m, t.result s db b = .ok m) (hdb : db.Regular n)

include h hran hdb

theorem Emits.arises_of_results : ∀ t ∈ steps, c.Arises t.operation := by
  have := h.arises <| forall_mem_map.2 fun t ht x ss mode heq => by
    obtain ⟨b, m, hm⟩ := hran t ht
    exact Step.fits_of_result hdb heq hm
  rwa [forall_mem_map] at this

theorem Emits.isVariableName_target : ∀ t ∈ steps, isVariableName t.target = false := by
  intro t ht
  rw [← Step.target_operation]
  exact (h.arises_of_results hran hdb t ht).isVariableName_target

variable {p : Program} {r : Rule} {head : Goal}
  (hc : c.Analyses p mode r head body)
  (hbinary : ∀ g ∈ body, p.definesGoal g = true → g.arity = 2)

include hc hbinary

theorem Circuit.Analyses.args_of_step {i : StepInfo} {m : Mode} {e : ℤ} {q : Plan}
    (hmem : .call i y m e q ∈ steps) :
    (∃ g ∈ body, p.definesGoal g = true ∧ m.functor = g.functor) ∧ m.arity = 2 ∧
      ∀ a ∈ m.args, a = "i" ∨ a = "o" := by
  obtain ⟨j, v, x, hv, hin, hm, hd⟩ := (h.arises_of_results hran hdb _ hmem).goal_of_call
  exact hc.args_of_call hbinary hm hd (hin ▸ mem_singleton_self x) hv

theorem Circuit.Analyses.plain_of_results : ∀ o ∈ steps.map Step.operation, o.Plain :=
  forall_mem_map.2 fun t ht => by
    obtain ⟨b, m, hm⟩ := hran t ht
    exact Step.plain_of_result hdb hm fun i y e k q heq =>
      (hc.args_of_step h hran hdb hbinary (heq ▸ ht)).2.1

end

/-- The weight with which a rule carries a number to another one. -/
def Rule.carried (db : Database α) (n : ℕ) (rules : String → Option (ℕ → ℕ → α)) (mode : Mode)
    (r : Rule) (i k : ℕ) : α :=
  if mode.isInput 0 then r.weight db n rules i k else r.weight db n rules k i

/-- What a rule makes of a row, which counts if its variable is in the body. -/
structure Rule.Carries (db : Database α) (n : ℕ) (rules : String → Option (ℕ → ℕ → α)) (mode : Mode)
    (r : Rule) (x m : Matrix α) : Prop where
  direction : mode.isInput 1 = !mode.isInput 0
  binary : ∃ head, r.head = some head ∧ head.arity = 2
  shaped : m.Shaped 1 n
  entry : (∀ head, r.head = some head → ∀ v ∈ head.args, v ∈ Goal.variablesOf r.body) → ∀ k < n,
    m.entry 0 k = ∑ a ∈ Finset.range n, x.entry 0 a * r.carried db n rules mode a k
  oneHot : ∀ a < n, (∀ i, x.entry 0 i = if i = a then 1 else 0) → ∀ k < n,
    m.entry 0 k = r.carried db n rules mode a k

theorem Finset.sum_oneHot_mul {n a : ℕ} (ha : a < n) {x : ℕ → α}
    (hx : ∀ k, x k = if k = a then 1 else 0) (w : ℕ → α) :
    ∑ i ∈ Finset.range n, x i * w i = w a := by
  rw [Finset.sum_eq_single_of_mem a (Finset.mem_range.2 ha)]
  · simp [hx]
  · intro i _ hi
    simp [hx, hi]

/-- The result of a rule on a row is the row, carried by the rule's weight. -/
theorem RulePlanned.value {p : Program} {Q : Mode → ℤ → Plan → Prop} {d : ℤ}
    {r : Rule} {plan : Plan} (h : RulePlanned p Q mode d r plan) (hdb : db.Regular n)
    {rules : String → Option (ℕ → ℕ → α)} (hp : p.Interprets db rules r.body)
    (hcalls : ∀ g ∈ r.body, p.definesGoal g = true → ∀ m q, m.functor = g.functor → m.arity = 2 →
      (∀ a ∈ m.args, a = "i" ∨ a = "o") → Q m (d + 1) q → q.isDistinct = true →
      q.Carries s db n (Circuit.carriedBy rules m)) (hdist : plan.isDistinct = true) {x : Matrix α}
    (hx : x.Shaped 1 n) (hm : plan.result s db [x] = .ok m) : r.Carries db n rules mode x m := by
  obtain ⟨hc, hemits, hsteps, -⟩ := h
  rename_i c head body info out steps r'
  have hp := hp.perm hc.perm
  obtain ⟨u, b', hu, hnd, hbodies, hb', hm⟩ := Plan.runs_of_result hdist hm
  obtain ⟨v, hdesc, hhead⟩ := hc.describes hu
  have hran := Step.result_of_bindAll hb'
  have hcarries : ∀ t ∈ steps, t.CallCarries s db n (Circuit.carriedBy rules) := by
    intro t ht
    cases t with
    | act i a => trivial
    | call i y m e q =>
      obtain ⟨⟨g, hg, hdef, hf⟩, harity, hargs⟩ := hc.args_of_step hemits hran hdb hp.binary ht
      exact hcalls g (hc.perm.mem_iff.1 hg) hdef m q hf harity hargs (hsteps i y m e q ht).2
        (hbodies _ ht)
  have humem : u ∈ head.args := by
    rcases hhead with ⟨hargs, -⟩ | ⟨hargs, -⟩ <;> simp [hargs]
  have hfresh : ∀ t ∈ steps, ¬(start u x).IsBound t.target := by
    rintro t ht ⟨m', hm'⟩
    have := hemits.isVariableName_target hran hdb t ht
    rw [← (value_start.1 hm').1, hc.names u humem] at this
    cases this
  obtain ⟨hext, heqs⟩ := Step.bindAll_equations hb' hnd hfresh
  have hrows' := Step.bindAll_rows hdb hcarries (single_start hx u) hb'
  have hholds : ∀ o ∈ steps.map Step.operation,
      o.Holds db n (Circuit.carriedBy rules) (b'.vector 0) :=
    forall_mem_map.2 fun t ht => by
      obtain ⟨m1, hm1, hval⟩ := heqs t ht
      exact (Step.holds_of_result hdb hrows' (hcarries t ht) hm1).2 hval
  have hplain := hc.plain_of_results hemits hran hdb hp.binary
  have hstored : Sends.Stored c (steps.map Step.operation) := by
    intro t y m' hmem j hj
    obtain ⟨step, hstep, heq⟩ := mem_map.1 hmem
    obtain ⟨m1, hm1, -⟩ := heqs step hstep
    obtain ⟨z, hz⟩ := Step.fits_of_result hdb heq hm1
    exact hc.not_defined_of_stores hp.apart hj (hdb.operand_ok hz).1.2
  have hdef (j : ℕ) (g : Goal) (hg : body[j]? = some g) (ha : g.arity = 2) :
      c.defined (j + 1) = (rules g.functor).isSome := by
    rw [hc.defined_eq hg, hp.rules g (mem_of_getElem? hg) ha]
  have hvars := hc.variableNames_ne_nil hp.assigned hp.plugins hp.binary
  have hnd' : ((steps.map Step.operation).map Operation.target).Nodup := by
    simpa [Function.comp_def] using hnd
  have hinput : b'.vector 0 u = x.entry 0 :=
    hrows'.vector_eq (hext u x (value_start.2 ⟨rfl, rfl⟩))
  have houtput : b'.vector 0 out = m.entry 0 := hrows'.vector_eq hm
  have hvars' : u ∈ Goal.variablesOf body ↔ u ∈ Goal.variablesOf r.body := by
    simp [Goal.variablesOf, hc.perm.mem_iff]
  have hcarried (a k : ℕ) :
      Goal.weightAt db n rules u v r.body a k = r.carried db n rules mode a k := by
    have hr {args : List String} (hargs : head.args = args) : r.head = some ⟨head.functor, args⟩ := by
      rw [hc.head_eq, ← hargs]
    rcases hhead with ⟨hargs, hi, -⟩ | ⟨hargs, hi, -⟩
    · simp [Rule.carried, hi, Rule.weight, hr hargs]
    · simp [Rule.carried, hi, Rule.weight, hr hargs, Goal.weightAt_swap hdesc.ne]
  have hw (k : ℕ) (hk : k < n) :=
    hemits.weight hdesc hp.assigned hvars hdef hplain hnd' hholds hstored hk
  simp only [hinput, houtput, hvars', Goal.weightAt_perm hc.perm, hcarried] at hw
  refine ⟨?_, ⟨head, hc.head_eq, ?_⟩, hrows' out m hm,
    fun hvars k hk => (hw k hk).1 (hvars head hc.head_eq u humem), fun a ha hone k hk => ?_⟩
  · rcases hhead with ⟨-, h0, h1⟩ | ⟨-, h0, h1⟩ <;> rw [h0, h1] <;> rfl
  · rcases hhead with ⟨hargs, -⟩ | ⟨hargs, -⟩ <;> rw [Goal.arity, hargs] <;> rfl
  · by_cases hu : u ∈ Goal.variablesOf r.body
    · rw [(hw k hk).1 hu]
      exact Finset.sum_oneHot_mul ha hone fun i => r.carried db n rules mode i k
    · exact (hw k hk).2 hu a

end BeliefLogic
