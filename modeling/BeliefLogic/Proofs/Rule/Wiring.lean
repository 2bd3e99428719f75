import BeliefLogic.Proofs.Rule.Order

/-!
# The wiring of a rule

Variables and goals tell the same story of which goal uses and computes which variable.
-/

namespace BeliefLogic

open Outcome List

variable {done body : List Goal}

/-- What goals take and give, and where variables come from and go. -/
structure Wiring where
  inputs : ℕ → List String
  outputs : ℕ → List String
  source : String → Option ℕ
  uses : String → List ℕ

def Flow.wiring (f : Flow) : Wiring where
  inputs j := (f.goals[j]?).elim [] GoalFlow.inputs
  outputs j := (f.goals[j]?).elim [] GoalFlow.outputs
  source v := (f.variableFlows.get? v).bind VariableFlow.source
  uses v := (f.variableFlows.get? v).elim [] VariableFlow.uses

namespace Wiring

/-- Goals and variables tell the same story. -/
structure Coherent (w : Wiring) : Prop where
  source_head : ∀ v, w.source v = some 0 ↔ v ∈ w.inputs 0
  source_goal : ∀ v j, w.source v = some (j + 1) ↔ v ∈ w.outputs (j + 1)
  uses_head : ∀ v, 0 ∈ w.uses v ↔ v ∈ w.outputs 0
  uses_goal : ∀ v j, j + 1 ∈ w.uses v ↔ v ∈ w.inputs (j + 1)
  uses_nodup : ∀ v, (w.uses v).Nodup
  /-- What a goal uses comes from it or an earlier one. -/
  source_le : ∀ v j, v ∈ w.inputs (j + 1) → ∃ i, w.source v = some i ∧ i ≤ j + 1

/-- The variables of goals are used or computed, both only if they occur twice. -/
structure Covers (w : Wiring) (body : List Goal) : Prop where
  mem_iff : ∀ j v, (v ∈ w.inputs (j + 1) ∨ v ∈ w.outputs (j + 1)) ↔
    ∃ g, body[j]? = some g ∧ v ∈ g.variableNames
  separate : ∀ j g, body[j]? = some g → g.variableNames.Nodup →
    ∀ v ∈ w.inputs (j + 1), v ∉ w.outputs (j + 1)

end Wiring

@[simp] theorem mem_addMember {β : Type} [DecidableEq β] {x y : β} {xs : List β} :
    y ∈ addMember x xs ↔ y ∈ xs ∨ y = x := by
  unfold addMember
  split
  · next h =>
    refine ⟨.inl, fun hy => hy.elim id ?_⟩
    rintro rfl
    exact h
  · simp

theorem nodup_addMember {β : Type} [DecidableEq β] {x : β} {xs : List β} (h : xs.Nodup) :
    (addMember x xs).Nodup := by
  unfold addMember
  split
  · exact h
  · next hx =>
    refine h.append (nodup_singleton x) fun y hy hy' => hx ?_
    rw [mem_singleton] at hy'
    exact hy' ▸ hy

theorem getElem?_concat {β : Type} (xs : List β) (x : β) (i : ℕ) :
    (xs ++ [x])[i]? = if i = xs.length then some x else xs[i]? := by
  grind

namespace Flow

variable {f : Flow} {v : String} {mode : Mode} {fg : Flow × GoalFlow}
  {g : GoalFlow} {head : Goal} {i j : ℕ} {args : List String}

theorem goal_ok : f.goal j = .ok g ↔ f.goals[j]? = some g := by
  unfold goal
  split <;> simp_all

theorem variableFlow_ok {flow : VariableFlow} :
    f.variableFlow v = .ok flow ↔ f.variableFlows.get? v = some flow := by
  unfold variableFlow
  split <;> simp_all

theorem get?_setVariable (f : Flow) (v u : String) (flow : VariableFlow) :
    (f.setVariable v flow).variableFlows.get? u =
      if v = u then some flow else f.variableFlows.get? u := by
  simp [setVariable]

theorem source_setVariable (f : Flow) (v u : String) (flow : VariableFlow) :
    (f.setVariable v flow).wiring.source u = if v = u then flow.source else f.wiring.source u := by
  simp only [wiring, get?_setVariable]
  split <;> rfl

theorem uses_setVariable (f : Flow) (v u : String) (flow : VariableFlow) :
    (f.setVariable v flow).wiring.uses u = if v = u then flow.uses else f.wiring.uses u := by
  simp only [wiring, get?_setVariable]
  split <;> rfl

theorem contains_setVariable (f : Flow) (v u : String) (flow : VariableFlow) :
    (f.setVariable v flow).variableFlows.contains u = true ↔
      v = u ∨ f.variableFlows.contains u = true := by
  simp only [Dictionary.contains, get?_setVariable]
  by_cases h : v = u <;> simp [h]

theorem source_getD (f : Flow) (v : String) :
    ((f.variableFlows.get? v).getD {}).source = f.wiring.source v := by
  cases h : f.variableFlows.get? v <;> simp [wiring, h]

theorem uses_getD (f : Flow) (v : String) :
    ((f.variableFlows.get? v).getD {}).uses = f.wiring.uses v := by
  cases h : f.variableFlows.get? v <;> simp [wiring, h]

def Unconnected (f : Flow) : Prop :=
  ∀ v flow, f.variableFlows.get? v = some flow → flow.connected = false

theorem Unconnected.setVariable (h : f.Unconnected) {flow : VariableFlow}
    (hv : flow.connected = false) : (f.setVariable v flow).Unconnected := by
  intro u flow' hu
  rw [get?_setVariable] at hu
  split at hu
  · rw [← Option.some.inj hu, hv]
  · exact h u flow' hu

theorem Unconnected.getD (h : f.Unconnected) (v : String) :
    ((f.variableFlows.get? v).getD {}).connected = false := by
  cases hv : f.variableFlows.get? v with
  | none => rfl
  | some flow => exact h v flow hv

def Named (f : Flow) : Prop :=
  ∀ v, f.variableFlows.contains v = true → isVariableName v = true

theorem Named.setVariable (h : f.Named) (hv : isVariableName v = true) (flow : VariableFlow) :
    (f.setVariable v flow).Named := by
  intro u hu
  rcases (contains_setVariable f v u flow).1 hu with rfl | hu
  · exact hv
  · exact h u hu

/-- What is known of a goal while its arguments are added. -/
structure Adding (f : Flow) (j : ℕ) (seen : List String) (fg : Flow × GoalFlow) : Prop where
  goals : fg.1.goals = f.goals
  source : ∀ v, fg.1.wiring.source v =
    if v ∈ fg.2.outputs then some j else f.wiring.source v
  fresh : ∀ v ∈ fg.2.outputs, f.wiring.source v = none
  known : ∀ v ∈ fg.2.inputs, fg.1.wiring.source v ≠ none
  uses : ∀ v k, k ∈ fg.1.wiring.uses v ↔ k ∈ f.wiring.uses v ∨ (k = j ∧ v ∈ fg.2.inputs)
  nodup : (∀ v, (f.wiring.uses v).Nodup) → ∀ v, (fg.1.wiring.uses v).Nodup
  vars : ∀ v, (v ∈ fg.2.inputs ∨ v ∈ fg.2.outputs) ↔ v ∈ seen
  separate : seen.Nodup → ∀ v ∈ fg.2.inputs, v ∉ fg.2.outputs
  unconnected : f.Unconnected → fg.1.Unconnected
  named : f.Named → fg.1.Named
  unmarked : fg.2.defined = false

theorem adding_nil (f : Flow) (j : ℕ) : Adding f j [] (f, {}) where
  goals := rfl
  source v := by simp
  fresh v h := by simp at h
  known v h := by simp at h
  uses v k := by simp
  nodup h := h
  vars v := by simp
  separate _ v h := by simp at h
  unconnected := id
  named := id
  unmarked := rfl

theorem Adding.addArgument {seen : List String} (h : Adding f j seen fg)
    (hv : isVariableName v = true) : Adding f j (seen ++ [v]) (Flow.addArgument j fg v) := by
  obtain ⟨f', g⟩ := fg
  simp only [Flow.addArgument, hv, if_true, source_getD, uses_getD]
  cases hsrc : f'.wiring.source v with
  | some i =>
    have hsource (u : String) : (if v = u then some i else f'.wiring.source u) =
        f'.wiring.source u := by
      split
      · next heq => rw [← heq, hsrc]
      · rfl
    refine ⟨h.goals, fun u => ?_, h.fresh, fun u hu => ?_, fun u k => ?_, fun hnd u => ?_,
      fun u => ?_, fun hnd u hu hout => ?_,
      fun hf => (h.unconnected hf).setVariable (Unconnected.getD (h.unconnected hf) v),
      fun hf => (h.named hf).setVariable hv _, h.unmarked⟩
    · simp only [source_setVariable, hsource]
      exact h.source u
    · simp only [source_setVariable, hsource]
      rcases mem_addMember.1 hu with hu | rfl
      · exact h.known u hu
      · simp [hsrc]
    · simp only [uses_setVariable, mem_addMember]
      by_cases huv : v = u
      · subst huv
        simp only [if_true, mem_addMember]
        have := h.uses v k
        grind
      · simp only [huv, Ne.symm huv, or_false]
        exact h.uses u k
    · simp only [uses_setVariable]
      split
      · exact nodup_addMember (h.nodup hnd v)
      · exact h.nodup hnd u
    · simp only [mem_addMember]
      have := h.vars u
      grind
    · obtain ⟨hseen, -, hdisj⟩ := nodup_append'.1 hnd
      rcases mem_addMember.1 hu with hu | rfl
      · exact h.separate hseen u hu hout
      · exact hdisj ((h.vars u).1 (.inr hout)) (mem_singleton_self u)
  | none =>
    have hfresh : f.wiring.source v = none := by
      have := h.source v
      rw [hsrc] at this
      split at this
      · cases this
      · exact this.symm
    refine ⟨h.goals, fun u => ?_, fun u hu => ?_, fun u hu => ?_, fun u k => ?_, fun hnd u => ?_,
      fun u => ?_, fun hnd u hu hout => ?_,
      fun hf => (h.unconnected hf).setVariable (Unconnected.getD (h.unconnected hf) v),
      fun hf => (h.named hf).setVariable hv _, h.unmarked⟩
    · simp only [source_setVariable, mem_addMember]
      by_cases huv : v = u
      · simp [huv]
      · simp only [huv, Ne.symm huv, or_false]
        exact h.source u
    · rcases mem_addMember.1 hu with hu | rfl
      · exact h.fresh u hu
      · exact hfresh
    · simp only [source_setVariable]
      split
      · simp
      · exact h.known u hu
    · simp only [uses_setVariable]
      split
      · next heq => rw [← heq]; exact h.uses v k
      · exact h.uses u k
    · simp only [uses_setVariable]
      split
      · exact h.nodup hnd v
      · exact h.nodup hnd u
    · simp only [mem_addMember]
      have := h.vars u
      grind
    · obtain ⟨hseen, -, hdisj⟩ := nodup_append'.1 hnd
      rcases mem_addMember.1 hout with hout | rfl
      · exact h.separate hseen u hu hout
      · exact hdisj ((h.vars u).1 (.inl hu)) (mem_singleton_self u)

theorem adding_args (f : Flow) (j : ℕ) (args : List String) :
    Adding f j (args.filter isVariableName) (args.foldl (Flow.addArgument j) (f, {})) := by
  induction args using List.reverseRecOn with
  | nil => exact adding_nil f j
  | append_singleton args v ih =>
    by_cases hv : isVariableName v = true
    · simpa [hv] using ih.addArgument hv
    · simpa [hv, Flow.addArgument] using ih

/-- The flow through a head and goals that are done. -/
structure Wired (f : Flow) (done : List Goal) : Prop where
  length : f.goals.length = done.length + 1
  coherent : f.wiring.Coherent
  covers : f.wiring.Covers done
  unconnected : f.Unconnected
  named : f.Named
  unmarked : ∀ g ∈ f.goals, g.defined = false

theorem outputs_of_length_le (h : f.goals.length ≤ j) : f.wiring.outputs j = [] := by
  simp [wiring, h]

/-- Variables come from goals that are done. -/
theorem Wired.source_lt (h : f.Wired done) (hv : f.wiring.source v = some j) :
    j < f.goals.length := by
  by_contra hj
  cases j with
  | zero =>
    have := h.length
    omega
  | succ j =>
    rw [h.coherent.source_goal, outputs_of_length_le (not_lt.1 hj)] at hv
    simp at hv

section

variable {f' : Flow} {goal : Goal}

/-- A flow whose goals are those of another one and one more. -/
def extended (f f' : Flow) (g : GoalFlow) : Flow := { f' with goals := f.goals ++ [g] }

theorem inputs_extended (f f' : Flow) (g : GoalFlow) (i : ℕ) : (extended f f' g).wiring.inputs i =
    if i = f.goals.length then g.inputs else f.wiring.inputs i := by
  simp only [wiring, extended, getElem?_concat]
  split <;> rfl

theorem outputs_extended (f f' : Flow) (g : GoalFlow) (i : ℕ) : (extended f f' g).wiring.outputs i =
    if i = f.goals.length then g.outputs else f.wiring.outputs i := by
  simp only [wiring, extended, getElem?_concat]
  split <;> rfl

variable {seen : List String} (hadd : Adding f f.goals.length seen (f', g))

include hadd

theorem Adding.source_extended (v : String) : (extended f f' g).wiring.source v =
    if v ∈ g.outputs then some f.goals.length else f.wiring.source v := hadd.source v

theorem Adding.source_old {i : ℕ} (hi : i ≠ f.goals.length) :
    (extended f f' g).wiring.source v = some i ↔ f.wiring.source v = some i := by
  rw [hadd.source_extended]
  split
  · next hv => simp [hadd.fresh v hv, hi.symm]
  · rfl

variable (h : f.Wired done)

include h

theorem Adding.source_new :
    (extended f f' g).wiring.source v = some f.goals.length ↔ v ∈ g.outputs := by
  rw [hadd.source_extended]
  split
  · next hv => simp [hv]
  · next hv => exact ⟨fun hlast => absurd (h.source_lt hlast) (lt_irrefl _), fun hv' => absurd hv' hv⟩

theorem Adding.coherent : (extended f f' g).wiring.Coherent := by
  have hlen := h.length
  have huse (v : String) (k : ℕ) : k ∈ (extended f f' g).wiring.uses v ↔
      k ∈ f.wiring.uses v ∨ (k = f.goals.length ∧ v ∈ g.inputs) := hadd.uses v k
  refine ⟨fun v => ?_, fun v i => ?_, fun v => ?_, fun v i => ?_, hadd.nodup h.coherent.uses_nodup,
    fun v i hv => ?_⟩
  · rw [hadd.source_old (by omega), inputs_extended, if_neg (by omega), h.coherent.source_head]
  · rw [outputs_extended]
    by_cases hi : i + 1 = f.goals.length
    · rw [if_pos hi, hi, hadd.source_new h]
    · rw [hadd.source_old hi, if_neg hi, h.coherent.source_goal]
  · rw [huse, outputs_extended, if_neg (by omega), ← h.coherent.uses_head]
    constructor
    · rintro (hv | ⟨hv, -⟩)
      · exact hv
      · omega
    · exact .inl
  · rw [huse, inputs_extended]
    have := h.coherent.uses_goal v i
    by_cases hi : i + 1 = f.goals.length
    · have hnone : f.wiring.inputs f.goals.length = [] := by simp [wiring]
      rw [hi, hnone] at this
      simp_all
    · rw [if_neg hi, ← this]
      simp [hi]
  · rw [inputs_extended] at hv
    split at hv
    · next hi =>
      -- The new goal uses what is known by then, perhaps by itself.
      obtain ⟨k, hk⟩ := Option.ne_none_iff_exists'.1 (hadd.known v hv)
      refine ⟨k, hk, ?_⟩
      by_contra hlt
      have := h.source_lt ((hadd.source_old (by omega)).1 hk)
      omega
    · obtain ⟨k, hk, hle⟩ := h.coherent.source_le v i hv
      exact ⟨k, (hadd.source_old (h.source_lt hk).ne).2 hk, hle⟩

theorem Adding.covers (hseen : seen = goal.variableNames) :
    (extended f f' g).wiring.Covers (done ++ [goal]) := by
  have hlen := h.length
  refine ⟨fun i v => ?_, fun i goal' hgoal' hnd => ?_⟩
  · rw [inputs_extended, outputs_extended, getElem?_concat]
    by_cases hi : i + 1 = f.goals.length
    · rw [if_pos hi, if_pos hi, if_pos (by omega), hadd.vars]
      simp [hseen]
    · rw [if_neg hi, if_neg hi, if_neg (by omega), h.covers.mem_iff i v]
  · rw [inputs_extended, outputs_extended]
    rw [getElem?_concat] at hgoal'
    by_cases hi : i + 1 = f.goals.length
    · rw [if_pos (by omega)] at hgoal'
      rw [if_pos hi, if_pos hi]
      refine hadd.separate ?_
      rw [hseen, Option.some.inj hgoal']
      exact hnd
    · rw [if_neg (by omega)] at hgoal'
      rw [if_neg hi, if_neg hi]
      exact h.covers.separate i goal' hgoal' hnd

end

theorem Wired.addGoal (h : f.Wired done) (goal : Goal) :
    (f.addGoal goal).Wired (done ++ [goal]) := by
  rcases hfg : goal.args.foldl (Flow.addArgument f.goals.length) (f, {}) with ⟨f', g⟩
  have hadd := adding_args f f.goals.length goal.args
  rw [hfg] at hadd
  have heq : f.addGoal goal = extended f f' g := by
    simp only [Flow.addGoal, hfg, extended]
    rw [← hadd.goals]
  rw [heq]
  exact ⟨by simp [extended, h.length], hadd.coherent h, hadd.covers h rfl,
    hadd.unconnected h.unconnected, hadd.named h.named,
    forall_mem_append.2 ⟨h.unmarked, forall_mem_singleton.2 hadd.unmarked⟩⟩

/-- What is known of the head while its arguments are added. -/
structure HeadAdded (f : Flow) (g : GoalFlow) : Prop where
  goals : f.goals = []
  source : ∀ v, f.wiring.source v = if v ∈ g.inputs then some 0 else none
  uses : ∀ v, f.wiring.uses v = if v ∈ g.outputs then [0] else []
  known : ∀ v, f.variableFlows.contains v = true ↔ v ∈ g.inputs ∨ v ∈ g.outputs
  unconnected : f.Unconnected
  unmarked : g.defined = false

theorem HeadAdded.addInput (h : HeadAdded f g) (hv : v ∉ g.outputs) :
    HeadAdded (f.setVariable v { source := some 0 })
      { g with inputs := addMember v g.inputs } := by
  refine ⟨h.goals, fun u => ?_, fun u => ?_, fun u => ?_, h.unconnected.setVariable rfl, h.unmarked⟩
  · simp only [source_setVariable, h.source]
    by_cases huv : v = u <;> simp [huv, eq_comm]
  · simp only [uses_setVariable, h.uses]
    by_cases huv : v = u
    · subst huv; simp [hv]
    · simp [huv]
  · have := h.known u
    simp only [contains_setVariable, mem_addMember]
    grind

/-- Adding a new variable that is not given. -/
theorem HeadAdded.addOutput (h : HeadAdded f g) (hv : v ∉ g.inputs) :
    HeadAdded (f.setVariable v { uses := [0] })
      { g with outputs := addMember v g.outputs } := by
  refine ⟨h.goals, fun u => ?_, fun u => ?_, fun u => ?_, h.unconnected.setVariable rfl, h.unmarked⟩
  · simp only [source_setVariable, h.source]
    by_cases huv : v = u
    · subst huv; simp [hv]
    · simp [huv]
  · simp only [uses_setVariable, h.uses]
    by_cases huv : v = u <;> simp [huv, eq_comm]
  · have := h.known u
    simp only [contains_setVariable, mem_addMember]
    grind

theorem headAdded_nil : HeadAdded {} {} where
  goals := rfl
  source _ := rfl
  uses _ := rfl
  known v := by simp [Dictionary.contains, Dictionary.get?, Dictionary.lookup]
  unconnected v flow h := by simp [Dictionary.get?, Dictionary.lookup] at h
  unmarked := rfl

/-- The arguments from a position on that a mode gives, or does not give. -/
def headArgs (mode : Mode) (given : Bool) (args : List String) (i : ℕ) : List String :=
  ((args.zipIdx i).filter fun a => mode.isInput a.2 == given).map (·.1)

theorem mem_of_mem_headArgs {given : Bool} (h : v ∈ headArgs mode given args i) : v ∈ args := by
  obtain ⟨⟨a, k⟩, ha, rfl⟩ := mem_map.1 h
  exact fst_mem_of_mem_zipIdx (mem_filter.1 ha).1

/-- Adding arguments of the head: they are new variables, given or not. -/
theorem HeadAdded.addHead {f' : Flow} {g' : GoalFlow} (h : HeadAdded f g)
    (hok : Flow.addHead mode head args i f g = .ok (f', g')) :
    HeadAdded f' g' ∧ g'.inputs = g.inputs ++ headArgs mode true args i ∧
      g'.outputs = g.outputs ++ headArgs mode false args i ∧ args.Nodup ∧
      ∀ v ∈ args, isVariableName v = true ∧ v ∉ g.inputs ∧ v ∉ g.outputs := by
  induction args generalizing i f g with
  | nil =>
    obtain ⟨rfl, rfl⟩ : f = f' ∧ g = g' := by simpa [Flow.addHead] using hok
    exact ⟨h, by simp [headArgs]⟩
  | cons v args ih =>
    simp only [Flow.addHead] at hok
    split at hok
    · cases hok
    next hnew =>
    split at hok
    · cases hok
    split at hok
    · cases hok
    next hvar =>
    obtain ⟨hin, hout⟩ : v ∉ g.inputs ∧ v ∉ g.outputs := by
      rw [h.known, not_or] at hnew
      exact hnew
    have hvar : isVariableName v = true := by simpa using hvar
    split at hok
    · next hi =>
      obtain ⟨hadd, h₁, h₂, h3, h4⟩ := ih (h.addInput hout) hok
      simp only [addMember, if_neg hin] at h₁ h4
      refine ⟨hadd, ?_, ?_, nodup_cons.2 ⟨fun hv => ?_, h3⟩, ?_⟩
      · simpa [headArgs, hi] using h₁
      · simpa [headArgs, hi] using h₂
      · exact (h4 v hv).2.1 (by simp)
      · refine forall_mem_cons.2 ⟨⟨hvar, hin, hout⟩, fun u hu => ?_⟩
        obtain ⟨hu1, hu2, hu3⟩ := h4 u hu
        exact ⟨hu1, fun hmem => hu2 (mem_append_left _ hmem), hu3⟩
    · next hi =>
      obtain ⟨hadd, h₁, h₂, h3, h4⟩ := ih (h.addOutput hin) hok
      simp only [addMember, if_neg hout] at h₂ h4
      refine ⟨hadd, ?_, ?_, nodup_cons.2 ⟨fun hv => ?_, h3⟩, ?_⟩
      · simpa [headArgs, hi] using h₁
      · simpa [headArgs, hi] using h₂
      · exact (h4 v hv).2.2 (by simp)
      · refine forall_mem_cons.2 ⟨⟨hvar, hin, hout⟩, fun u hu => ?_⟩
        obtain ⟨hu1, hu2, hu3⟩ := h4 u hu
        exact ⟨hu1, hu2, fun hmem => hu3 (mem_append_left _ hmem)⟩

theorem wired_ofHead (h : ofHead mode head = .ok f) : f.Wired [] := by
  obtain ⟨⟨f', g⟩, hadd, hf⟩ := then_ok.1 h
  obtain rfl := except_pure_ok.1 hf
  obtain ⟨hhead, hinputs, houtputs, -, hnames⟩ := HeadAdded.addHead headAdded_nil hadd
  have hin (j : ℕ) : ({ f' with goals := [g] } : Flow).wiring.inputs j =
      if j = 0 then g.inputs else [] := by
    cases j <;> simp [wiring]
  have hout (j : ℕ) : ({ f' with goals := [g] } : Flow).wiring.outputs j =
      if j = 0 then g.outputs else [] := by
    cases j <;> simp [wiring]
  have hsrc (v : String) : ({ f' with goals := [g] } : Flow).wiring.source v =
      if v ∈ g.inputs then some 0 else none := hhead.source v
  have huse (v : String) : ({ f' with goals := [g] } : Flow).wiring.uses v =
      if v ∈ g.outputs then [0] else [] := hhead.uses v
  refine ⟨rfl, ⟨fun v => ?_, fun v j => ?_, fun v => ?_, fun v j => ?_, fun v => ?_,
    fun v j hv => ?_⟩, ⟨fun j v => ?_, fun j g hg => ?_⟩, hhead.unconnected, fun v hv => ?_,
    by simpa using hhead.unmarked⟩
  · simp [hsrc, hin]
  · simp [hsrc, hout]
  · simp [huse, hout]
  · simp [huse, hin]
  · rw [huse]
    split <;> simp
  · simp [hin] at hv
  · simp [hin, hout]
  · simp at hg
  · refine (hnames v ?_).1
    rcases (hhead.known v).1 hv with hv | hv
    · rw [hinputs] at hv
      exact mem_of_mem_headArgs hv
    · rw [houtputs] at hv
      exact mem_of_mem_headArgs hv

theorem wired_ofGoals (h : ofGoals mode (head :: body) = .ok f) :
    f.Wired body := by
  obtain ⟨f0, h0, hf⟩ := then_ok.1 h
  obtain rfl := except_pure_ok.1 hf
  have key (gs done : List Goal) (f : Flow) (hw : f.Wired done) :
      (gs.foldl addGoal f).Wired (done ++ gs) := by
    induction gs generalizing done f with
    | nil => simpa using hw
    | cons g gs ih => simpa using ih (done ++ [g]) _ (hw.addGoal g)
  exact key body [] f0 (wired_ofHead h0)

theorem getElem?_addGoals (h : f.goals[j]? = some g) (body : List Goal) :
    (body.foldl addGoal f).goals[j]? = some g := by
  induction body generalizing f with
  | nil => exact h
  | cons goal body ih =>
    refine ih ?_
    have hadd := (adding_args f f.goals.length goal.args).goals
    obtain ⟨hlt, -⟩ := List.getElem?_eq_some_iff.1 h
    simp [addGoal, hadd, getElem?_append_left hlt, h]

/-- The head of a flow takes the arguments that the mode gives, and gives the others, all different.
-/
theorem headed_ofGoals (h : ofGoals mode (head :: body) = .ok f) :
    f.wiring.inputs 0 = headArgs mode true head.args 0 ∧
      f.wiring.outputs 0 = headArgs mode false head.args 0 ∧ head.args.Nodup ∧
      ∀ v ∈ head.args, isVariableName v = true := by
  obtain ⟨f0, h0, hf⟩ := then_ok.1 h
  obtain rfl := except_pure_ok.1 hf
  obtain ⟨⟨f', g⟩, hadd, hf0⟩ := then_ok.1 h0
  obtain rfl := except_pure_ok.1 hf0
  obtain ⟨-, h₁, h₂, h3, h4⟩ := HeadAdded.addHead headAdded_nil hadd
  have hfirst : (body.foldl addGoal { f' with goals := [g] }).goals[0]? = some g :=
    getElem?_addGoals rfl body
  simp only [wiring, hfirst, Option.elim_some, h₁, h₂, nil_append]
  exact ⟨trivial, trivial, h3, fun v hv => (h4 v hv).1⟩

end Flow

end BeliefLogic
