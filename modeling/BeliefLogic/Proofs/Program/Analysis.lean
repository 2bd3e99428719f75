import BeliefLogic.Proofs.Plan.Passes
import BeliefLogic.Proofs.Plan.Result

/-!
# What an analysis keeps

Planning calls and inferring types change types and marks only.
-/

namespace BeliefLogic

open Outcome Run List

variable {f f' : Flow} {j : ℕ} {p p' : Program} {schema : Option Schema}

namespace Flow

/-- Programs that differ in plans and features only. -/
structure Alike (f f' : Flow) : Prop where
  wiring : f'.wiring = f.wiring
  length : f'.goals.length = f.goals.length
  contains : ∀ v, f'.variableFlows.contains v = f.variableFlows.contains v
  unconnected : f.Unconnected → f'.Unconnected

theorem Alike.refl (f : Flow) : f.Alike f := ⟨rfl, rfl, fun _ => rfl, id⟩

theorem Alike.trans {f'' : Flow} (h : f.Alike f') (h' : f'.Alike f'') : f.Alike f'' :=
  ⟨h'.wiring.trans h.wiring, h'.length.trans h.length, fun v => (h'.contains v).trans (h.contains v),
    fun hu => h'.unconnected (h.unconnected hu)⟩

def marked (f : Flow) (j : ℕ) : Bool := (f.goals[j]?).elim false GoalFlow.defined

theorem inputs_of_goal {g : GoalFlow} (h : f.goal j = .ok g) :
    g.inputs = f.wiring.inputs j ∧ g.outputs = f.wiring.outputs j ∧ g.defined = f.marked j ∧
      j < f.goals.length := by
  have hget := goal_ok.1 h
  exact ⟨by simp [wiring, hget], by simp [wiring, hget], by simp [marked, hget],
    (List.getElem?_eq_some_iff.1 hget).1⟩

theorem goal_of_lt (h : j < f.goals.length) : ∃ g, f.goal j = .ok g :=
  ⟨f.goals[j], by simp [goal, getElem?_eq_getElem h]⟩

theorem Alike.modeOf_eq (h : f.Alike f') (goals : List Goal) (j : ℕ) :
    f'.modeOf goals j = f.modeOf goals j := by
  by_cases hj : j < f.goals.length
  · obtain ⟨g, hg⟩ := goal_of_lt hj
    obtain ⟨g', hg'⟩ := goal_of_lt (h.length ▸ hj)
    obtain ⟨hi, ho, -⟩ := inputs_of_goal hg
    obtain ⟨hi', ho', -⟩ := inputs_of_goal hg'
    rw [h.wiring] at hi' ho'
    have hdir : direction g' = direction g := by
      funext x
      simp [direction, hi, ho, hi', ho']
    simp [modeOf, hg, hg', hdir]
  · have hnone (f : Flow) (hf : f.goals.length ≤ j) : f.goal j = .error .notFound := by
      simp [goal, getElem?_eq_none hf]
    simp [modeOf, hnone f (not_lt.1 hj), hnone f' (h.length ▸ not_lt.1 hj)]

theorem setType_ok {v : String} {type : Option String} (h : f.setType v type = .ok f') :
    f.Alike f' ∧ f'.goals = f.goals := by
  obtain ⟨flow, hflow, hf⟩ := then_ok.1 h
  obtain rfl := except_pure_ok.1 hf
  have hget := variableFlow_ok.1 hflow
  refine ⟨⟨?_, rfl, fun u => ?_, fun hu => hu.setVariable (hu v flow hget)⟩, rfl⟩
  · unfold wiring
    congr 1
    · funext u
      simp only [get?_setVariable]
      split
      · next heq => rw [← heq, hget]; rfl
      · rfl
    · funext u
      simp only [get?_setVariable]
      split
      · next heq => rw [← heq, hget]; rfl
      · rfl
  · simp only [Dictionary.contains, get?_setVariable]
    split
    · next heq => rw [← heq, hget]; rfl
    · rfl

theorem mark_alike (f : Flow) (j : ℕ) :
    let f' : Flow := { f with goals := f.goals.modify j fun g => { g with defined := true } }
    f.Alike f' ∧
      ∀ i, f'.marked i = (f.marked i || (decide (i = j) && decide (i < f.goals.length))) := by
  have hget (i : ℕ) : (f.goals.modify j fun g => { g with defined := true })[i]? =
      (f.goals[i]?).map fun g => if j = i then { g with defined := true } else g := by
    rw [getElem?_modify]
    cases f.goals[i]? with
    | none => rfl
    | some g => simp only [Option.map_some]; split <;> rfl
  refine ⟨⟨?_, by simp, fun _ => rfl, id⟩, fun i => ?_⟩
  · unfold wiring
    congr 1
    all_goals
      funext i
      rw [hget]
      cases f.goals[i]? with
      | none => rfl
      | some g => simp only [Option.map_some]; split <;> rfl
  · simp only [marked, hget]
    by_cases hi : i < f.goals.length
    · rw [getElem?_eq_getElem hi]
      by_cases hij : i = j
      · simp [hij, hij ▸ hi]
      · simp [hij, Ne.symm hij]
    · simp [hi]

end Flow

namespace Program

/-- Programs that differ in plans and features only. -/
structure Alike (p p' : Program) : Prop where
  theory : p'.theory = p.theory
  plugins : p'.plugins = p.plugins
  maxDepth : p'.maxDepth = p.maxDepth
  normalization : p'.normalization = p.normalization

theorem Alike.refl (p : Program) : p.Alike p := ⟨rfl, rfl, rfl, rfl⟩

theorem Alike.symm (h : p.Alike p') : p'.Alike p :=
  ⟨h.theory.symm, h.plugins.symm, h.maxDepth.symm, h.normalization.symm⟩

theorem Alike.trans {p'' : Program} (h : p.Alike p') (h' : p'.Alike p'') : p.Alike p'' :=
  ⟨h'.theory.trans h.theory, h'.plugins.trans h.plugins, h'.maxDepth.trans h.maxDepth,
    h'.normalization.trans h.normalization⟩

theorem Alike.rulesFor?_eq (h : p.Alike p') (mode : Mode) :
    p'.rulesFor? mode = p.rulesFor? mode := by
  simp [rulesFor?, h.theory]

theorem Alike.defines_eq (h : p.Alike p') (mode : Mode) :
    p'.defines mode = p.defines mode := by
  simp [defines, h.rulesFor?_eq]

end Program

namespace Run

variable {α : Type} (S : Program → Prop) {t t' : World α × (Program × Analysis)} {x : Unit}
variable {plan : Mode → ℤ → Run α Program Plan}

/-- Settings and rules stay, and the program stays sound. -/
structure Continues (t t' : World α × Program) : Prop where
  settings : t'.1.settings = t.1.settings
  program : t.2.Alike t'.2
  sound : S t.2 → S t'.2

instance : Settled (Continues S : World α × Program → World α × Program → Prop) where
  refl _ := ⟨rfl, .refl _, id⟩
  trans h h' := ⟨h'.settings.trans h.settings, h.program.trans h'.program, h'.sound ∘ h.sound⟩

/-- Types were noted, plans made, and goals marked that rules define. -/
structure Keeps (t t' : World α × (Program × Analysis)) : Prop where
  program : Continues S (t.1, t.2.1) (t'.1, t'.2.1)
  mode : t'.2.2.mode = t.2.2.mode
  depth : t'.2.2.depth = t.2.2.depth
  rule : t'.2.2.rule = t.2.2.rule
  goals : t'.2.2.goals = t.2.2.goals
  steps : t'.2.2.emission.steps = t.2.2.emission.steps
  result : t'.2.2.result = t.2.2.result
  flow : t.2.2.flow.Alike t'.2.2.flow
  marked : ∀ j, t.2.2.flow.marked j = true → t'.2.2.flow.marked j = true
  justified : ∀ j, t'.2.2.flow.marked j = true → t.2.2.flow.marked j = true ∨
    0 < j ∧ ∃ mode, t.2.2.flow.modeOf t.2.2.goals j = .ok mode ∧ t.2.1.defines mode = true

namespace Keeps

variable {S}

theorem modeOf_eq (h : Keeps S t t') (j : ℕ) :
    t'.2.2.flow.modeOf t'.2.2.goals j = t.2.2.flow.modeOf t.2.2.goals j := by
  rw [h.goals, h.flow.modeOf_eq]

theorem defines_eq (h : Keeps S t t') (mode : Mode) :
    t'.2.1.defines mode = t.2.1.defines mode := h.program.program.defines_eq mode

end Keeps

instance : Settled (Keeps S : World α × (Program × Analysis) → _ → Prop) where
  refl t := ⟨Settled.refl _, rfl, rfl, rfl, rfl, rfl, rfl, .refl _, fun _ => id, fun _ => .inl⟩
  trans {t u v} h h' := by
    refine ⟨Settled.trans h.program h'.program, h'.mode.trans h.mode, h'.depth.trans h.depth,
      h'.rule.trans h.rule, h'.goals.trans h.goals, h'.steps.trans h.steps,
      h'.result.trans h.result, h.flow.trans h'.flow, fun j hj => h'.marked j (h.marked j hj),
      fun j hj => ?_⟩
    rcases h'.justified j hj with hj | ⟨hpos, mode, hmode, hdef⟩
    · exact h.justified j hj
    · exact .inr ⟨hpos, mode, by rw [← h.modeOf_eq, hmode], by rw [← h.defines_eq, hdef]⟩

theorem Unchanged.keeps (h : Unchanged t t') : Keeps S t t' := by
  obtain ⟨w, s⟩ := t
  obtain ⟨w', s'⟩ := t'
  obtain ⟨hw, rfl : s' = s⟩ := h
  exact ⟨⟨hw, .refl _, id⟩, rfl, rfl, rfl, rfl, rfl, rfl, .refl _, fun _ => id, fun _ => .inl⟩

theorem analysis_bind {β : Type} {f : Analysis → Analysing α β} :
    (analysis >>= f) t = f t.2.2 t := rfl

theorem moves_analysis : Moves (Keeps S) (analysis : Analysing α _) :=
  moves_state.bind fun _ => moves_pure

theorem keeps_noteType (v : String) (type : Option String) :
    Moves (Keeps S) (noteType v type : Analysing α _) := by
  intro t x t' h
  simp only [noteType, setFlow, bind_ok, lift_ok, update_ok] at h
  obtain ⟨a, _, ⟨_, _, rfl⟩, f, _, ⟨hf, rfl⟩, rfl⟩ := h
  obtain ⟨halike, hgoals⟩ := Flow.setType_ok hf
  have hmarked (j : ℕ) : f.marked j = t.2.2.flow.marked j := by simp [Flow.marked, hgoals]
  exact ⟨Settled.refl _, rfl, rfl, rfl, rfl, rfl, rfl, halike, fun j hj => (hmarked j).trans hj,
    fun j hj => .inl ((hmarked j).symm.trans hj)⟩

theorem keeps_warnOfTypes (v : String) (old new : Option String) :
    Moves (Keeps S) (warnOfTypes v old new : Analysing α _) := by
  refine Moves.ite ?_ moves_pure
  exact fun _ _ _ h => (tells_note _ _ _ h).keeps S

theorem keeps_noteInformative (v : String) (old new : Option String) :
    Moves (Keeps S) (noteInformative v old new : Analysing α _) :=
  (keeps_warnOfTypes S v old new).bind fun _ => keeps_noteType S v new

theorem keeps_inferArgument (schema : Option Schema) (goal : Goal) (v : String) (i : ℕ) :
    Moves (Keeps S) (inferArgument schema goal v i : Analysing α _) := by
  cases schema with
  | none =>
    intro t x t' h
    exact (fail_ok.1 h).elim
  | some schema =>
    refine moves_lift.bind fun new => (moves_analysis S).bind fun _ =>
      moves_lift.bind fun old => Moves.ite ?_ moves_pure
    exact keeps_noteInformative S v old.type new

theorem keeps_inferRelationTypes (schema : Option Schema) (goal : Goal) :
    Moves (Keeps S) (inferRelationTypes schema goal : Analysing α _) :=
  moves_forM _ fun a _ => keeps_inferArgument S schema goal a.1 a.2

theorem keeps_inferOutput (plugins : Plugins) (mode : Mode) (j : ℕ) (v : String) (i : ℕ) :
    Moves (Keeps S) (inferOutput plugins mode j v i : Analysing α _) := by
  refine Moves.ite ?_ moves_pure
  exact (moves_analysis S).bind fun _ => moves_lift.bind fun _ => keeps_noteType S _ _

theorem keeps_inferGoal (schema : Option Schema) (goal : Goal) (j : ℕ) :
    Moves (Keeps S) (inferGoal schema goal j : Analysing α _) := by
  refine moves_state.bind fun _ => moves_lift.bind fun mode => Moves.ite ?_ (Moves.ite ?_
    (Moves.ite ?_ moves_pure))
  · exact moves_forM _ fun a _ => keeps_inferOutput S _ mode j a.1 a.2
  · exact keeps_noteType S _ _
  · exact keeps_inferRelationTypes S schema goal

/-- A relation that is neither built in nor defined has variables only. -/
theorem variables_of_inferGoal {goal : Goal} (h : inferGoal schema goal j t = .ok x t')
    (hnamed : t.2.2.flow.Named) :
    ∃ mode, t.2.2.flow.modeOf t.2.2.goals j = .ok mode ∧
      (t.2.1.plugins.has mode = true ∨ goal.functor = assignment ∨ t.2.1.defines mode = true ∨
        ∀ a ∈ goal.args, isVariableName a = true) := by
  simp only [inferGoal, bind_ok, lift_ok, state_bind] at h
  obtain ⟨mode, _, ⟨hmode, rfl⟩, h⟩ := h
  refine ⟨mode, hmode, ?_⟩
  split at h
  · next hplugin => exact .inl hplugin
  split at h
  · next hassign => exact .inr (.inl hassign.1)
  split at h
  · next hstored =>
    refine .inr (.inr (.inr fun a ha => ?_))
    obtain ⟨i, hi⟩ := getElem?_of_mem ha
    obtain ⟨-, hargs⟩ := forM_ok (R := Keeps fun _ => True)
      (fun a _ => keeps_inferArgument _ schema goal a.1 a.2) h
    obtain ⟨t1, t2, y, hkeeps, hinfer, -⟩ :=
      hargs (a, i) (mk_mem_zipIdx_iff_getElem?.2 hi)
    -- The flow of the argument is looked up, and only variables have one.
    cases schema with
    | none => exact (fail_ok.1 hinfer).elim
    | some schema =>
      simp only [inferArgument, bind_ok, lift_ok, analysis_bind] at hinfer
      obtain ⟨_, _, ⟨_, rfl⟩, flow, _, ⟨hflow, rfl⟩, _⟩ := hinfer
      refine hnamed a ?_
      rw [← hkeeps.flow.contains]
      exact Option.isSome_iff_exists.2 ⟨_, Flow.variableFlow_ok.1 hflow⟩
  · next hstored =>
    rw [not_and_or, not_ne_iff] at hstored
    rcases hstored with hassign | hdef
    · exact .inr (.inl hassign)
    · exact .inr (.inr (.inl (by simpa using hdef)))

/-- Inferring types keeps an analysis; stored relations have variables. -/
theorem inferTypes_ok (h : inferTypes schema t = .ok x t') (hnamed : t.2.2.flow.Named) :
    Keeps S t t' ∧ ∀ j g, t.2.2.goals[j + 1]? = some g →
      ∃ mode, t.2.2.flow.modeOf t.2.2.goals (j + 1) = .ok mode ∧
        (t.2.1.plugins.has mode = true ∨ g.functor = assignment ∨ t.2.1.defines mode = true ∨
          ∀ a ∈ g.args, isVariableName a = true) := by
  simp only [inferTypes, analysis_bind] at h
  obtain ⟨hkeeps, hgoals⟩ := forM_ok
    (fun a _ => keeps_inferGoal S schema a.1 a.2) h
  refine ⟨hkeeps, fun j g hg => ?_⟩
  have hmem : (g, j + 1) ∈ t.2.2.goals.zipIdx.tail := by
    refine mem_of_getElem? (i := j) ?_
    rw [getElem?_tail, getElem?_zipIdx, hg]
    simp
  obtain ⟨t1, t2, y, hbefore, hinfer, -⟩ := hgoals _ hmem
  obtain ⟨mode, hmode, hcases⟩ := variables_of_inferGoal hinfer fun v hv =>
    hnamed v (by rwa [← hbefore.flow.contains])
  rw [hbefore.modeOf_eq] at hmode
  rw [hbefore.program.program.plugins, hbefore.defines_eq] at hcases
  exact ⟨mode, hmode, hcases⟩

theorem keeps_noteCallTypes (j : ℕ) (plan : Plan) :
    Moves (Keeps S) (noteCallTypes j plan : Analysing α _) := by
  unfold noteCallTypes
  split
  · exact moves_pure
  · refine (moves_analysis S).bind fun _ => moves_lift.bind fun _ => Moves.bind ?_ fun _ =>
      moves_lift.bind fun _ => keeps_noteType S _ _
    exact moves_forM _ fun a _ => keeps_noteType S a.1 a.2

/-- Planning a call keeps an analysis, and marks a defined goal. -/
theorem planCall_ok (d : ℤ) (hplan : ∀ mode, Moves (Continues S) (plan mode (d + 1))) (hpos : 0 < j)
    (hd : t.2.2.depth = d) (h : planCall plan j t = .ok x t') :
    Keeps S t t' ∧ ∃ mode, t.2.2.flow.modeOf t.2.2.goals j = .ok mode ∧
      (t.2.1.defines mode = true → t'.2.2.flow.marked j = true) := by
  simp only [planCall, bind_ok, lift_ok, state_bind] at h
  obtain ⟨mode, _, ⟨hmode, rfl⟩, h⟩ := h
  split at h
  · next hdef =>
    simp only [bind_ok, markDefined, update_ok, focus_ok] at h
    obtain ⟨_, t1, rfl, q, t2, ⟨u, hq, rfl⟩, h⟩ := h
    obtain ⟨halike, hmark⟩ := t.2.2.flow.mark_alike j
    have hlt : j < t.2.2.flow.goals.length := by
      obtain ⟨g, hg, -⟩ := then_ok.1 hmode
      exact (Flow.inputs_of_goal hg).2.2.2
    set a := t.2.2.setFlow { t.2.2.flow with
      goals := t.2.2.flow.goals.modify j fun g => { g with defined := true } }
    have hfirst : Keeps S t (t.1, (t.2.1, a)) := by
      refine ⟨Settled.refl _, rfl, rfl, rfl, rfl, rfl, rfl, halike, fun i hi => ?_, fun i hi => ?_⟩
      · exact (hmark i).trans (by simp [hi])
      · rcases Bool.or_eq_true_iff.1 ((hmark i).symm.trans hi) with hi | hi
        · exact .inl hi
        · obtain ⟨rfl, -⟩ : i = j ∧ _ := by simpa using hi
          exact .inr ⟨hpos, mode, hmode, hdef⟩
    have hsecond : Keeps S (t.1, (t.2.1, a)) (u.1, (u.2, a)) :=
      ⟨hplan mode _ _ _ (hd ▸ hq), rfl, rfl, rfl, rfl, rfl, rfl, .refl _, fun _ => id, fun _ => .inl⟩
    have hthird := keeps_noteCallTypes S j q _ _ _ h
    refine ⟨Settled.trans hfirst (Settled.trans hsecond hthird), mode, hmode, fun _ => ?_⟩
    exact hthird.marked j ((hmark j).trans (by simp [hlt]))
  · next hdef =>
    obtain ⟨-, rfl⟩ := pure_ok.1 h
    exact ⟨Settled.refl _, mode, hmode, fun h => absurd h hdef⟩

/-- The analysis of a rule at a depth went on. -/
def KeepsAt (d : ℤ) (t t' : World α × (Program × Analysis)) : Prop :=
  t.2.2.depth = d → Keeps S t t'

instance (d : ℤ) : Settled (KeepsAt S d : World α × (Program × Analysis) → _ → Prop) where
  refl t _ := Settled.refl t
  trans h h' hd := Settled.trans (h hd) (h' ((h hd).depth.trans hd))

/-- Planning the calls of a rule keeps its analysis and marks defined goals. -/
theorem planCalls_ok {d : ℤ} (hplan : ∀ mode, Moves (Continues S) (plan mode (d + 1)))
    (hd : t.2.2.depth = d) (h : planCalls plan t = .ok x t') :
    Keeps S t t' ∧ ∀ j, j + 1 < t.2.2.goals.length →
      ∃ mode, t.2.2.flow.modeOf t.2.2.goals (j + 1) = .ok mode ∧
        (t.2.1.defines mode = true → t'.2.2.flow.marked (j + 1) = true) := by
  simp only [planCalls, analysis_bind] at h
  have hmem (j : ℕ) : j ∈ (List.range t.2.2.goals.length).tail ↔
      0 < j ∧ j < t.2.2.goals.length := by
    cases t.2.2.goals.length with
    | zero => simp
    | succ n =>
      rw [range_succ_eq_map, tail_cons, mem_map]
      exact ⟨by rintro ⟨i, hi, rfl⟩; simpa using hi, fun hj => ⟨j - 1, by simp; omega, by omega⟩⟩
  obtain ⟨hkeeps, hgoals⟩ := forM_ok (R := KeepsAt S d)
    (fun j hj t1 _ t2 h1 hd1 => (planCall_ok S d hplan ((hmem j).1 hj).1 hd1 h1).1) h
  refine ⟨hkeeps hd, fun j hj => ?_⟩
  obtain ⟨t1, t2, y, hbefore, hcall, hafter⟩ := hgoals (j + 1) ((hmem _).2 ⟨by simp, hj⟩)
  have hbefore := hbefore hd
  obtain ⟨hcall, mode, hmode, hmark⟩ :=
    planCall_ok S d hplan (by simp) (hbefore.depth.trans hd) hcall
  rw [hbefore.modeOf_eq] at hmode
  rw [hbefore.defines_eq] at hmark
  have hafter := hafter ((hcall.depth.trans hbefore.depth).trans hd)
  exact ⟨mode, hmode, fun hdef => hafter.marked _ (hmark hdef)⟩

end Run

end BeliefLogic
