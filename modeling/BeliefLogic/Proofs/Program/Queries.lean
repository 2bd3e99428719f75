import BeliefLogic.Proofs.Program.Weights
import BeliefLogic.Proofs.Rule.Names

/-!
# Plans of queries

If both variables of every head stand in the body, the plans of queries work row by row.
-/

namespace BeliefLogic

open Plan

open List

open Outcome Run

variable {r : Rule} {rules : List Rule}

/-- A list is cut at the first or the last place of an element. -/
theorem append_cons_inj {β : Type} {x : β} {r r' s s' : List β}
    (hx : x ∉ r ∧ x ∉ r' ∨ x ∉ s ∧ x ∉ s') (h : r ++ x :: s = r' ++ x :: s') :
    r = r' ∧ s = s' := by
  rcases append_eq_append_iff.1 h with ⟨t, rfl, ht⟩ | ⟨t, rfl, ht⟩
  all_goals
    cases t with
    | nil => simp_all
    | cons y t =>
      simp_all

/-- The key of a goal tells its name and its arity. -/
theorem Goal.key_inj {g g' : Goal} (h : g.key = g'.key) :
    g.functor = g'.functor ∧ g.arity = g'.arity := by
  have hslash (n : ℕ) : '/' ∉ Nat.toDigits 10 n := fun hmem => by
    have := Nat.isDigit_of_mem_toDigits (by omega) (by omega) hmem
    simp at this
  have hlist := congrArg String.toList h
  simp only [Goal.key, String.toList_append, Text.toList_natural] at hlist
  have hcut : g.functor.toList ++ '/' :: Nat.toDigits 10 g.arity =
      g'.functor.toList ++ '/' :: Nat.toDigits 10 g'.arity := by
    simpa using hlist
  obtain ⟨hf, ha⟩ := append_cons_inj (.inr ⟨hslash _, hslash _⟩) hcut
  refine ⟨String.toList_inj.1 hf, ?_⟩
  have := congrArg (fun ds => Nat.ofDigitChars 10 ds 0) ha
  simpa using this

/-- Rules are filed under the keys of their heads. -/
def Theory.Filed (t : Theory) : Prop :=
  ∀ e ∈ t.groups, ∀ r ∈ e.2, ∃ head, r.head = some head ∧ head.key = e.1

/-- A rule is filed at the end of the group of its head, or in a new group. -/
theorem Theory.add_ok {t t' : Theory} (h : t.add r = .ok t') : ∃ head, r.head = some head ∧
    ((∃ before rs after, t.groups = before ++ (head.key, rs) :: after ∧
        head.key ∉ before.map (·.1) ∧ t'.groups = before ++ (head.key, rs ++ [r]) :: after) ∨
      head.key ∉ t.groups.map (·.1) ∧ t'.groups = t.groups ++ [(head.key, [r])]) := by
  unfold add at h
  split at h
  · next head hr =>
    obtain rfl := Except.ok.inj h
    refine ⟨head, hr, ?_⟩
    dsimp only
    induction t.groups with
    | nil => exact .inr ⟨not_mem_nil, rfl⟩
    | cons e rest ih =>
      obtain ⟨k, rs⟩ := e
      by_cases hk : k = head.key
      · exact .inl ⟨[], rs, rest, by rw [hk]; rfl, not_mem_nil, by rw [fileUnder, if_pos hk, hk]; rfl⟩
      · rw [fileUnder, if_neg hk]
        rcases ih with ⟨before, rs', after, hold, hkey, hnew⟩ | ⟨hkey, hnew⟩
        · exact .inl ⟨(k, rs) :: before, rs', after, by rw [hold]; rfl,
            by simpa [Ne.symm hk] using hkey, by rw [hnew]; rfl⟩
        · exact .inr ⟨by simpa [Ne.symm hk] using hkey, by rw [hnew]; rfl⟩
  · cases h

theorem Theory.filed_add {t t' : Theory} (h : t.add r = .ok t') (ht : t.Filed) : t'.Filed := by
  obtain ⟨head, hr, hcases⟩ := add_ok h
  have hfiled : ∀ s ∈ [r], ∃ g, s.head = some g ∧ g.key = head.key :=
    forall_mem_singleton.2 ⟨head, hr, rfl⟩
  unfold Filed at ht ⊢
  rcases hcases with ⟨before, rs, after, hold, -, hnew⟩ | ⟨-, hnew⟩
  · rw [hold, forall_mem_append, forall_mem_cons] at ht
    rw [hnew, forall_mem_append, forall_mem_cons]
    exact ⟨ht.1, forall_mem_append.2 ⟨ht.2.1, hfiled⟩, ht.2.2⟩
  · rw [hnew]
    exact forall_mem_append.2 ⟨ht, forall_mem_singleton.2 hfiled⟩

namespace Program

variable {p : Program}

theorem exists_group {mode : Mode} (hr : r ∈ (p.rulesFor? mode).getD []) :
    ∃ e ∈ p.theory.groups, e.1 = mode.goal.key ∧ r ∈ e.2 := by
  unfold rulesFor? Theory.rulesFor? at hr
  cases hfind : p.theory.groups.find? (·.1 = mode.goal.key) with
  | none => simp [hfind] at hr
  | some e =>
    exact ⟨e, mem_of_find?_eq_some hfind, by simpa using find?_some hfind,
      by simpa [hfind] using hr⟩

theorem head_of_rulesFor (hp : p.theory.Filed) {mode : Mode} (hr : r ∈ (p.rulesFor? mode).getD []) :
    ∃ head, r.head = some head ∧ head.functor = mode.functor ∧ head.arity = mode.arity := by
  obtain ⟨e, he, hkey, hr⟩ := exists_group hr
  obtain ⟨head, hhead, hk⟩ := hp e he r hr
  exact ⟨head, hhead, Goal.key_inj (hk.trans hkey)⟩

theorem mem_rules_of_rulesFor {mode : Mode} (hr : r ∈ (p.rulesFor? mode).getD []) :
    r ∈ p.theory.rules := by
  obtain ⟨e, he, -, hr⟩ := exists_group hr
  exact mem_flatMap.2 ⟨e, he, hr⟩

/-- Every head has two variables, both in the body. -/
def RangeRestricted (p : Program) : Prop :=
  ∀ r ∈ p.theory.rules, ∃ f u v, r.head = some ⟨f, [u, v]⟩ ∧ u ∈ Goal.variablesOf r.body ∧
    v ∈ Goal.variablesOf r.body

/-- If all heads have two variables, rules define relations of two arguments. -/
theorem RangeRestricted.arity_of_defines (h : p.RangeRestricted) (hp : p.theory.Filed) {g : Goal}
    (hg : p.definesGoal g = true) : g.arity = 2 := by
  obtain ⟨r, hr⟩ := exists_mem_of_ne_nil _ (of_decide_eq_true hg)
  obtain ⟨head, hhead, -, ha⟩ := head_of_rulesFor hp hr
  obtain ⟨f, u, v, hhead', -⟩ := h r (mem_rules_of_rulesFor hr)
  obtain rfl := Option.mem_unique hhead hhead'
  exact ha.symm

end Program

/-- Nothing beyond the greatest depth, or the plan of the mode, normalized. -/
def QueryPlanned (p : Program) (Q : Mode → ℤ → Plan → Prop) (mode : Mode) (plan : Plan) : Prop :=
  (p.maxDepth.isExceededBy 0 = .ok true ∧ plan = .null {} mode) ∨
  (p.maxDepth.isExceededBy 0 = .ok false ∧ ∃ made normal table, ModePlanned p Q mode 0 made ∧
    Program.normalize p.normalization made = .ok normal ∧
    plan = ((Plan.number false normal 1).run table).1.1)

theorem Program.plan?_of_fresh (p : Program) (h : p.plans = {}) (m : Mode) (d : ℤ) :
    p.plan? m d = none := by
  rw [plan?, h]
  rfl

namespace Run

variable {α : Type} {p0 : Program} {Q : Mode → ℤ → Plan → Prop} {mode : Mode} {plan : Plan}
  {schema : Option Schema} {t t' : World α × Program}

theorem planRules_planForRule_ok (hQ : p0.Grants Q) {fuel : ℕ} {d : ℤ} (hd : 0 ≤ d)
    (h : planRules (planForRule schema fuel mode d) mode rules t = .ok plan t') :
    Continues (p0.Sound Q) t t' ∧
      (p0.Sound Q t.2 → OfRules (RulePlanned p0 Q mode d) rules plan) :=
  planRules_sound hd (fun fuel' _ m t plan t' h =>
    (planAt_ok hQ fuel' m (d + 1) (by omega) t plan t' h).1) h

/-- What planning a query for the first time does. -/
theorem compile_new (hnew : t.2.plan? mode 0 = none) (h : compile schema mode t = .ok plan t') :
    (t.2.maxDepth.isExceededBy 0 = .ok true ∧ plan = .null {} mode ∧
      t' = (t.1, { t.2 with plans := t.2.plans.put (mode, 0) plan })) ∨
    (t.2.maxDepth.isExceededBy 0 = .ok false ∧ ∃ fuel made u normal,
      planningFuel t.2 0 = fuel + 1 ∧
      planRules (planForRule schema fuel mode 0) mode ((t.2.rulesFor? mode).getD []) t =
        .ok made u ∧
      Program.normalize t.2.normalization made = .ok normal ∧
      plan = ((Plan.number false normal 1).run (u.2.plans.put (mode, 0) made)).1.1 ∧
      t' = (u.1, { u.2 with plans :=
        ((Plan.number false normal 1).run (u.2.plans.put (mode, 0) made)).2.put (mode, 0) plan })) := by
  simp only [compile, compileAt, state_bind] at h
  obtain ⟨hkept, -⟩ | ⟨-, hex, h⟩ | ⟨-, hex, fuel, made, u, v, hfuel, hmade, hkeep, h⟩ :=
    planAt_cases h
  · simp [hnew] at hkept
  · obtain ⟨rfl, rfl⟩ := keepPlan_ok.1 h
    exact .inl ⟨hex, rfl, rfl⟩
  · obtain ⟨-, rfl⟩ := keepPlan_ok.1 hkeep
    simp only [ne_eq, not_true_eq_false, if_false, finishPlan, bind_ok, lift_ok, state_bind] at h
    obtain ⟨normal, _, ⟨hnormal, rfl⟩, _, _, rfl⟩ := h
    exact .inr ⟨hex, fuel, made, u, normal, hfuel, hmade, hnormal, rfl, rfl⟩

/-- A query that is planned on a program without plans. -/
theorem compile_ok (hQ : t.2.Grants Q) (hfresh : t.2.plans = {})
    (h : compile schema mode t = .ok plan t') : QueryPlanned t.2 Q mode plan := by
  have hnone := t.2.plan?_of_fresh hfresh
  rcases compile_new (hnone mode 0) h with ⟨hex, rfl, rfl⟩ |
    ⟨hex, fuel, made, u, normal, -, hmade, hnormal, rfl, rfl⟩
  · exact .inl ⟨hex, rfl⟩
  · obtain ⟨-, hrules⟩ := planRules_planForRule_ok hQ le_rfl hmade
    refine .inr ⟨hex, made, normal, _, hrules ⟨.refl _, fun m d q _ hq => ?_⟩, hnormal, rfl⟩
    rw [hnone] at hq
    cases hq

/-- A new query within the depth is finished once its plan is kept. -/
theorem compile_eq_finishPlan {fuel : ℕ} (hfuel : planningFuel t.2 0 = fuel + 1)
    (hnew : t.2.plan? mode 0 = none) (hdepth : t.2.maxDepth.isExceededBy 0 = .ok false)
    (hplan : planRules (planForRule schema fuel mode 0) mode ((t.2.rulesFor? mode).getD []) t =
      .ok plan t') :
    compile schema mode t = finishPlan t.2.normalization mode plan
      (t'.1, { t'.2 with plans := t'.2.plans.put (mode, 0) plan }) := by
  have hstart : compile schema mode t = planAt schema (fuel + 1) mode 0 t := by
    rw [← hfuel]
    rfl
  rw [hstart, planAt, state_bind, hnew, hdepth]
  exact bind_of_ok hplan

/-- The plan of a query from the plans of its rules. -/
theorem compile_of_rules {normal : Plan} {fuel : ℕ} (hfuel : planningFuel t.2 0 = fuel + 1)
    (hnew : t.2.plan? mode 0 = none) (hdepth : t.2.maxDepth.isExceededBy 0 = .ok false)
    (hrules : t.2.rulesFor? mode = some rules)
    (hplan : planRules (planForRule schema fuel mode 0) mode rules t = .ok plan t')
    (hnormal : Program.normalize t.2.normalization plan = .ok normal) :
    ∃ p', compile schema mode t =
      .ok ((Plan.number false normal 1).run (t'.2.plans.put (mode, 0) plan)).1.1 (t'.1, p') := by
  rw [compile_eq_finishPlan hfuel hnew hdepth (by rwa [hrules]), finishPlan, hnormal]
  exact ⟨_, rfl⟩

end Run

section

variable {α : Type} [ExactScalar α] {s : Settings α} {db : Database α} {n : ℕ} {p : Program}

/-- The addends of a sum that has a result have results. -/
theorem Plan.result_of_sumOf (hdb : db.Regular n) {inputs : List (Matrix α)} {ps : List Plan}
    {m : Matrix α} (h : (Plan.sumOf ps).result s db inputs = .ok m) :
    ∃ r rs, Forall₂ (fun q m => q.result s db inputs = .ok m) ps (r :: rs) ∧
      rs.foldlM Matrix.add r = .ok m := by
  have h : Plan.result s db inputs (.sum {} ps) = .ok m := result_congr hdb (bare_sumOf ps) h
  obtain ⟨ms, hms, h⟩ := then_ok.1 h
  cases ms with
  | nil => cases h
  | cons r rs => exact ⟨r, rs, result_of_results hms, h⟩

theorem Plan.isDistinct_of_sumOf {ps : List Plan} (h : (Plan.sumOf ps).isDistinct = true) :
    ∀ q ∈ ps, q.isDistinct = true := by
  rw [← isDistinct_bare, bare_sumOf, isDistinct_bare] at h
  exact areDistinct_iff.1 h

/-- A plan with a result for some row, and no name twice, works row by row. -/
def Plan.RowwiseIfAny (s : Settings α) (db : Database α) (q : Plan) : Prop :=
  q.isDistinct = true → (∃ x m, q.result s db [x] = .ok m) → q.Rowwise

/-- The plan of a mode works row by row if the plans of its rules do. -/
theorem OfRules.rowwise (hdb : db.Regular n) {P : Rule → Plan → Prop} {plan : Plan}
    (h : OfRules P rules plan) (hP : ∀ r ∈ rules, ∀ q, P r q → q.RowwiseIfAny s db) :
    plan.RowwiseIfAny s db := by
  cases h with
  | one hplan => exact hP _ (mem_singleton_self _) _ hplan
  | @many r r' rules plans hall =>
    rintro hdist ⟨x, m, hm⟩
    obtain ⟨y, ys, hresults, -⟩ := result_of_sumOf hdb hm
    have hplans : ∀ q ∈ plans, q.Rowwise := by
      intro q hq
      obtain ⟨r1, hr1, hplan⟩ := exists_of_forall₂ hall.flip q hq
      obtain ⟨m1, -, hm1⟩ := exists_of_forall₂ hresults q hq
      exact hP r1 hr1 q hplan (isDistinct_of_sumOf hdist q hq) ⟨x, m1, hm1⟩
    have hsum : (Plan.sum {} plans).Rowwise := allRowwise_iff.2 hplans
    exact hsum.congr (bare_sumOf plans).symm

/-- If both variables of heads stand in the body, plans for calls work row by row. -/
theorem Program.RangeRestricted.grants (hp : p.RangeRestricted) (hfiled : p.theory.Filed)
    (hdb : db.Regular n) : p.Grants fun _ _ q => q.RowwiseIfAny s db where
  null _ _ _ _ _ := trivial
  made mode d plan _ h := by
    refine OfRules.rowwise hdb h fun r hr q hq hdist ⟨x, m, hm⟩ => ?_
    refine hq.rowwise hdb (fun g _ => hp.arity_of_defines hfiled) (fun head hhead v hv => ?_)
      (fun m q hq => hq) hdist hm
    obtain ⟨f, u, w, hhead', hu, hw⟩ := hp r (Program.mem_rules_of_rulesFor hr)
    obtain rfl := Option.mem_unique hhead hhead'
    rcases mem_pair.1 hv with rfl | rfl
    · exact hu
    · exact hw
  key _ _ _ _ _ h := h

theorem QueryPlanned.rowwise (hp : p.RangeRestricted) (hfiled : p.theory.Filed) (hdb : db.Regular n)
    (hnorm : p.normalization = .identity ∨ p.normalization = .softmax) {mode : Mode} {plan : Plan}
    (h : QueryPlanned p (fun _ _ q => q.RowwiseIfAny s db) mode plan) : plan.RowwiseIfAny s db := by
  rcases h with ⟨-, rfl⟩ | ⟨hex, made, normal, table, hmade, hnormal, rfl⟩
  · exact fun _ _ => trivial
  · have hmade := (hp.grants hfiled hdb).made mode 0 made hex hmade
    have hbare := bare_number false normal 1 table
    rintro hdist ⟨x, m, hm⟩
    rw [← isDistinct_bare, hbare, isDistinct_bare] at hdist
    have hm := result_congr hdb hbare hm
    refine Plan.Rowwise.congr ?_ hbare.symm
    rcases hnorm with hnorm | hnorm
    · obtain rfl : made = normal := by simpa [hnorm, Program.normalize] using hnormal
      exact hmade hdist ⟨x, m, hm⟩
    · obtain rfl : made.softmaxOf = normal := by simpa [hnorm, Program.normalize] using hnormal
      obtain ⟨m', hm', -⟩ := then_ok.1 hm
      exact hmade hdist ⟨x, m', hm'⟩

end

/-- Queries are evaluated row by row: if both variables of every head stand in the body, no name is
bound twice, and the plan can be evaluated on every row of a matrix alone, then it can be on the
matrix, and gives these rows. -/
theorem queryPlan_rows {α : Type} [ExactExponential α] {db : Database α} {n : ℕ}
    (hdb : db.Regular n) {p p' : Program} (hfresh : p.plans = {}) (hfiled : p.theory.Filed)
    (hrange : p.RangeRestricted)
    (hnorm : p.normalization = .identity ∨ p.normalization = .softmax) {schema : Option Schema}
    {mode : Mode} {w w' : World α} {plan : Plan}
    (hplan : compile schema mode (w, p) = .ok plan (w', p')) (hdistinct : plan.isDistinct = true)
    {t : World α × Scratch α} (hlimit : t.1.settings.denseLimit ≠ .undefined) {h : ℕ} (hh : 0 < h)
    {X : Matrix α} (hX : X.Shaped h n)
    (hrows : ∀ i < h, ∃ y u, Plan.eval db [X.rowMatrix i] plan t = .ok y u) :
    ∃ Y t', Plan.eval db [X] plan t = .ok Y t' ∧ Y.Shaped h n ∧
      ∀ i < h, ∀ y u, Plan.eval db [X.rowMatrix i] plan t = .ok y u →
        ∀ k, y.entry 0 k = Y.entry i k := by
  have hresult (i : ℕ) : ∃ m, i < h → plan.result t.1.settings db [X.rowMatrix i] = .ok m := by
    by_cases hi : i < h
    · obtain ⟨y, u, hy⟩ := hrows i hi
      exact ⟨y, fun _ => (eval_ok _ hy).1⟩
    · exact ⟨default, fun h => absurd h hi⟩
  choose m hm using hresult
  have hplanned := compile_ok (hrange.grants (s := t.1.settings) hfiled hdb) hfresh hplan
  have hrowwise := hplanned.rowwise hrange hfiled hdb hnorm hdistinct ⟨_, m 0, hm 0 hh⟩
  obtain ⟨y, u, hy⟩ := hrows 0 hh
  have htold := (eval_ok plan hy).2.2
  obtain ⟨Y, hY, hYs, hrow⟩ := hrowwise.batches hdb hlimit plan htold h X X.rowMatrix hh hX m
    fun i hi => ⟨hX.isRow_rowMatrix hi, hm i hi⟩
  obtain ⟨t', ht', -⟩ := hY t rfl
  refine ⟨Y, t', ht', hYs, fun i hi y u hy k => ?_⟩
  obtain rfl := ok_unique (eval_ok _ hy).1 (hm i hi)
  exact (hrow i hi).entry_of_lt hYs hi k

namespace Sample

/-- The program of the rule for paths, with answers that are normalized. -/
def normalized : Program where
  theory := { dialect := .clause, groups := [("path/2", [paths])] }
  maxDepth := .upTo 10
  normalization := .softmax

def query : Plan := ((Plan.number false plan.softmaxOf 1).run {}).1.1

theorem planRules_normalized (fuel : ℕ) :
    planRules (planForRule (some (.untyped symbols)) (fuel + 2) ends 0) ends [paths]
      (world, normalized) = .ok plan (world, normalized) := by
  with_unfolding_all rfl

theorem compile_paths : ∃ p', compile (some (.untyped symbols)) ends (world, normalized) =
    .ok query (world, p') :=
  compile_of_rules (by decide) rfl rfl (by decide) (planRules_normalized 37) rfl

theorem rangeRestricted_normalized : normalized.RangeRestricted := by
  intro r hr
  obtain rfl : r = paths := mem_singleton.1 hr
  exact ⟨"path", "X", "Y", rfl, by decide, by decide⟩

theorem filed_normalized : normalized.theory.Filed := by
  intro e he r hr
  obtain rfl := mem_singleton.1 he
  obtain rfl := mem_singleton.1 hr
  exact ⟨_, rfl, by decide⟩

def rows : Matrix ℚ := ⟨3, #[[(1, 1)], [(2, 1)]]⟩

theorem result_rows (i : ℕ) (hi : i < 2) :
    ∃ m, plan.result ({} : Settings ℚ) database [rows.rowMatrix i] = .ok m ∧ m.Shaped 1 3 ∧
      m.scores 0 2 ≠ 0 := by
  interval_cases i
  · exact ⟨⟨3, #[[(2, 34), (1, 2)]]⟩, by with_unfolding_all rfl, Matrix.shaped_iff.2 (by decide),
      by decide +kernel⟩
  · exact ⟨⟨3, #[[(2, 45)]]⟩, by with_unfolding_all rfl, Matrix.shaped_iff.2 (by decide),
      by decide +kernel⟩

theorem result_query (i : ℕ) (hi : i < 2) :
    ∃ m, plan.softmaxOf.result ({} : Settings ℚ) database [rows.rowMatrix i] = .ok m := by
  obtain ⟨r, hr, hshaped, hscore⟩ := result_rows i hi
  have hscores : ∀ j < 1, ∃ k, r.scores j k ≠ 0 := fun j hj => ⟨2, by
    obtain rfl : j = 0 := by omega
    exact hscore⟩
  have hlimit : ({} : Settings ℚ).denseLimit ≠ .undefined := by decide
  obtain ⟨q, m, hq, hm, -⟩ := hshaped.softmax one_pos (by decide) hscores hlimit
  exact ⟨m, then_ok.2 ⟨r, hr, then_ok.2 ⟨q, hq, hm⟩⟩⟩

end Sample

open Sample in
theorem queryPlan_rows_paths : ∃ Y t', Plan.eval database [rows] query (world, {}) = .ok Y t' ∧
    Y.Shaped 2 3 ∧ ∀ i < 2, ∀ y u,
      Plan.eval database [rows.rowMatrix i] query (world, {}) = .ok y u →
        ∀ k, y.entry 0 k = Y.entry i k := by
  obtain ⟨p', hplan⟩ := compile_paths
  have hshaped : rows.Shaped 2 3 := Matrix.shaped_iff.2 (by decide)
  refine queryPlan_rows regular_database rfl filed_normalized rangeRestricted_normalized (.inr rfl)
    hplan (by decide) (by decide) (by decide) hshaped fun i hi => ?_
  obtain ⟨m, hm⟩ := result_query i hi
  exact ⟨m, exists_eval_number regular_database (hshaped.isRow_rowMatrix hi).shaped ⟨rfl, rfl⟩ hm
    false 1 {}⟩

end BeliefLogic
