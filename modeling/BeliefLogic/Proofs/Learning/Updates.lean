import BeliefLogic.Proofs.Program.Weights
import BeliefLogic.Learning.Training

/-!
# Updates of parameters

A parameter is a sum that is clipped at every step. It is the clipped sum of all steps exactly if no
sum of last steps exceeds that.
-/

namespace BeliefLogic

open Outcome Run List Dictionary

variable {α : Type} [ExactScalar α] {g : Gradients α} {h w : ℕ} {p : Predicate} {x : α}

/-- Adds changes in turn; what falls below zero is put to zero. -/
def clippedSum (x : α) (ds : List α) : α := ds.foldl (fun x d => max 0 (x + d)) x

@[simp] theorem clippedSum_cons (x d : α) (ds : List α) :
    clippedSum x (d :: ds) = clippedSum (max 0 (x + d)) ds := rfl

theorem add_sum_le_clippedSum (x : α) (ds : List α) : x + ds.sum ≤ clippedSum x ds := by
  induction ds generalizing x with
  | nil => simp [clippedSum]
  | cons d ds ih =>
    rw [sum_cons, ← add_assoc]
    exact (add_le_add_left (le_max_right 0 (x + d)) ds.sum).trans (ih _)

theorem clippedSum_nonneg (hx : 0 ≤ x) (ds : List α) : 0 ≤ clippedSum x ds := by
  induction ds generalizing x with
  | nil => exact hx
  | cons d ds ih => exact ih (le_max_left 0 (x + d))

/-- The sum so far is at least zero, so that the steps left count in full. -/
theorem sum_le_clippedSum (hx : 0 ≤ x) {ds s : List α} (hs : s <:+ ds) :
    s.sum ≤ clippedSum x ds := by
  induction ds generalizing x with
  | nil =>
    rw [suffix_nil.1 hs]
    exact hx
  | cons d ds ih =>
    rcases suffix_cons_iff.1 hs with rfl | hs
    · exact (le_add_of_nonneg_left hx).trans (add_sum_le_clippedSum x (d :: ds))
    · exact ih (le_max_left 0 (x + d)) hs

/-- The sum counts all steps, or those after the last one that was clipped. -/
theorem clippedSum_eq_or (x : α) (ds : List α) :
    clippedSum x ds = x + ds.sum ∨ ∃ s, s <:+ ds ∧ clippedSum x ds = s.sum := by
  induction ds generalizing x with
  | nil => exact .inl (by simp [clippedSum])
  | cons d ds ih =>
    rw [clippedSum_cons, sum_cons]
    rcases ih (max 0 (x + d)) with h | ⟨s, hs, h⟩
    · rcases max_choice 0 (x + d) with hmax | hmax
      · exact .inr ⟨ds, suffix_cons d ds, by rw [h, hmax, zero_add]⟩
      · exact .inl (by rw [h, hmax, add_assoc])
    · exact .inr ⟨s, hs.trans (suffix_cons d ds), h⟩

/-- Clipping on the way agrees with clipping at the end if no last sum is too large. -/
theorem clippedSum_eq_max_iff (hx : 0 ≤ x) (ds : List α) :
    clippedSum x ds = max 0 (x + ds.sum) ↔ ∀ s, s <:+ ds → s.sum ≤ max 0 (x + ds.sum) := by
  constructor
  · intro h s hs
    exact h ▸ sum_le_clippedSum hx hs
  · intro h
    refine le_antisymm ?_ (max_le (clippedSum_nonneg hx ds) (add_sum_le_clippedSum x ds))
    rcases clippedSum_eq_or x ds with heq | ⟨s, hs, heq⟩
    · exact heq ▸ le_max_right 0 _
    · exact heq ▸ h s hs

namespace Matrix

theorem foldl_putRow (rs : List (Row α)) {s : Scattered α} (hs : s.Valid) (hsize : s.cells.size = w)
    (hrs : ∀ r ∈ rs, RowBounded w r) (k : ℕ) :
    (rs.foldl (fun s r => s.putRow r) s).get k = s.get k + (rs.map fun r => rowEntry r k).sum := by
  induction rs generalizing s with
  | nil => simp
  | cons r rs ih =>
    obtain ⟨hr, hrs⟩ := forall_mem_cons.1 hrs
    obtain ⟨hv, hz, hg, -⟩ := Scattered.putRow_spec hs (hsize ▸ hr)
    rw [foldl_cons, ih hv (hz.trans hsize) hrs, hg, map_cons, sum_cons, add_assoc]

/-- The mean of rows, of which there is one at least. -/
theorem Shaped.mean {m : Matrix α} (hm : m.Shaped h w) (hh : 0 < h) :
    ∃ p, m.mean = .ok p ∧ p.Shaped 1 w ∧
      ∀ k, p.entry 0 k = (∑ i ∈ Finset.range h, m.entry i k) / h := by
  obtain ⟨q, hq, hqs, hqe⟩ := hm.scale (1 / Scalar.ofNat m.height)
  set sums := q.rows.foldl (fun s r => s.putRow r) (Scattered.none m.width) with hsums
  -- Every column collects its multiples.
  have hget (k : ℕ) : sums.get k = (∑ i ∈ Finset.range h, m.entry i k) / h := by
    have hsize : (Scattered.none m.width : Scattered α).cells.size = w := by
      simp [Scattered.none, hm.width_eq]
    have hrows : ∀ r ∈ q.rows.toList, RowBounded w r := by
      rw [hqs.rows_eq]
      intro r hr
      obtain ⟨i, -, rfl⟩ := mem_map.1 hr
      exact hqs.bounded i
    rw [hsums, ← Array.foldl_toList, foldl_putRow _ (Scattered.valid_none _) hsize hrows,
      Scattered.get_none, zero_add, hqs.rows_eq, map_map, sum_map_range, Finset.sum_div]
    refine Finset.sum_congr rfl fun i _ => ?_
    rw [Function.comp_apply, ← entry_eq, hqe, hm.height_eq, Scalar.ofNat_eq, mul_one_div]
  refine ⟨⟨m.width, #[(List.range m.width).filterMap fun j => mergeRows.keep j (sums.get j)]⟩, ?_,
    hm.width_eq ▸ shaped_singleRow ?_, fun k => ?_⟩
  · have hne : m.height ≠ 0 := by rw [hm.height_eq]; omega
    rw [Matrix.mean, if_neg hne]
    exact then_ok.2 ⟨q, hq, rfl⟩
  · intro e he
    exact mem_range.1 (mem_filterMap_keep he).1
  · rw [entry_eq, ← hget]
    refine (rowEntry_filterMap_keep nodup_range sums.get k).trans ?_
    split
    · rfl
    · next hk =>
      rw [mem_range, not_lt, hm.width_eq] at hk
      rw [hget, Finset.sum_eq_zero fun i _ => hm.entry_of_le i hk, zero_div]

theorem clip_eq_max (x : α) : Scalar.clip (some 0) Scalar.greatestSingle x = max 0 x := by
  change (if x < 0 then 0 else x) = max 0 x
  rcases lt_or_ge x 0 with hx | hx
  · rw [if_pos hx, max_eq_left hx.le]
  · rw [if_neg hx.not_gt, max_eq_right hx]

/-- A parameter that is moved along a gradient of its shape. -/
theorem Shaped.moved {x g : Matrix α} (hx : x.Shaped h w) (hg : g.Shaped h w) (c : α) :
    ∃ m, Run.moved (.matrix x) (.matrix g) (.real c) = .ok m ∧ m.Shaped h w ∧
      ∀ i k, m.entry i k = max 0 (x.entry i k + c * g.entry i k) := by
  obtain ⟨s, hs, hss, hse⟩ := hg.scale c
  obtain ⟨y, hy, hys, hye, hreduced⟩ := hx.add hss
  refine ⟨y.clipped (some 0) Scalar.greatestSingle, ?_, hys.map _, fun i k => ?_⟩
  · have hscaled : (Operand.matrix g).scaled (.real c) = .ok (.matrix s) :=
      then_ok.2 ⟨c, rfl, then_ok.2 ⟨s, hs, rfl⟩⟩
    have hsum : (Operand.matrix x).add (.matrix s) = .ok (.matrix y) := by
      rw [Operand.add_matrix, hy]
      rfl
    exact then_ok.2 ⟨_, hscaled, then_ok.2 ⟨_, hsum, rfl⟩⟩
  · rw [entry_eq, clipped, row_mapValues]
    refine (rowEntry_map_of_nodup (hreduced i).nodup ?_ k).trans ?_
    · rw [clip_eq_max, max_self]
    · rw [clip_eq_max, ← entry_eq, hye, hse, mul_comm c]

end Matrix

namespace Gradients

/-- The number of examples that gradients count. -/
def examples (g : Gradients α) : α := ((g.figures.get? "n").bind Datum.number?).getD 0

/-- What a gradient says of an entry: a mean over examples, or divided by them. -/
def changeOf (g : Gradients α) (p : Predicate) (m : Matrix α) (i k : ℕ) : α :=
  if g.fitted then m.entry i k
  else if p.arity = 1 then
    if i = 0 then (∑ r ∈ Finset.range m.height, m.entry r k) / m.height else 0
  else m.entry i k / g.examples

/-- How an entry should change, which is not at all without a gradient. -/
def change (g : Gradients α) (p : Predicate) (i k : ℕ) : α :=
  match g.sums.get? p with
  | none => 0
  | some m => g.changeOf p m i k

/-- A gradient that has a shape, or can be given it. -/
def IsFor (g : Gradients α) (p : Predicate) (m : Matrix α) (h w : ℕ) : Prop :=
  if g.fitted then m.Shaped h w
  else if p.arity = 1 then h = 1 ∧ 0 < m.height ∧ m.Shaped m.height w
  else m.Shaped h w ∧ g.examples ≠ 0

/-- Gradients of kept parameters, in shapes that fit. -/
structure Fits (g : Gradients α) (db : Database α) : Prop where
  nodup : g.sums.keys.Nodup
  isFor : ∀ e ∈ g.sums.entries, ∃ x h w, db.param e.1 = .ok x ∧ x.Shaped h w ∧ g.IsFor e.1 e.2 h w

/-- Examples that are counted have their share. -/
theorem counted_of_examples (h : g.examples ≠ 0) :
    ∃ d, g.counted "n" = (d, g) ∧ share d = .ok (1 / g.examples) := by
  unfold examples at h ⊢
  cases hn : g.figures.get? "n" with
  | none => simp [hn] at h
  | some d =>
    cases hd : d.number? with
    | none => simp [hn, hd] at h
    | some x =>
      have hx : x ≠ 0 := by simpa [hn, hd] using h
      exact ⟨d, by simp [counted, hn], by simp [share, hd, hx]⟩

/-- A gradient is given the shape of its parameter. -/
theorem fitGradient_run {m : Matrix α} (hfresh : g.fitted = false) (hfor : g.IsFor p m h w) :
    ∃ m', (∀ v, fitGradient p m (v, g) = .ok () (v, { g with sums := g.sums.put p m' })) ∧
      m'.Shaped h w ∧ ∀ i k, m'.entry i k = g.changeOf p m i k := by
  have hchange (i k : ℕ) : g.changeOf p m i k = if p.arity = 1 then
      if i = 0 then (∑ r ∈ Finset.range m.height, m.entry r k) / m.height else 0
      else m.entry i k / g.examples := by
    simp [changeOf, hfresh]
  simp only [IsFor, hfresh] at hfor
  by_cases hp : p.arity = 1
  · rw [if_pos hp] at hfor
    obtain ⟨rfl, hheight, hm⟩ := hfor
    obtain ⟨m', hm', hs, he⟩ := hm.mean hheight
    refine ⟨m', fun v => ?_, hs, fun i k => ?_⟩
    · rw [fitGradient, if_pos hp]
      exact bind_ok.2 ⟨m', (v, g), lift_ok.2 ⟨hm', rfl⟩, rfl⟩
    · rw [hchange, if_pos hp]
      split
      · next hi => rw [hi, he]
      · next hi => exact hs.entry_of_height_le (by omega) k
  · rw [if_neg hp] at hfor
    obtain ⟨hm, hn⟩ := hfor
    obtain ⟨d, hd, hshare⟩ := counted_of_examples hn
    obtain ⟨m', hm', hs, he⟩ := hm.scale (1 / g.examples)
    refine ⟨m', fun v => ?_, hs, fun i k => ?_⟩
    · have hlift : (do m.scale (← share d)) = .ok m' := then_ok.2 ⟨_, hshare, hm'⟩
      rw [fitGradient, if_neg hp]
      refine bind_ok.2 ⟨g, (v, g), rfl, ?_⟩
      rw [hd]
      exact bind_ok.2 ⟨(), (v, g), rfl, bind_ok.2 ⟨m', (v, g), lift_ok.2 ⟨hlift, rfl⟩, rfl⟩⟩
    · rw [hchange, if_neg hp, he, mul_one_div]

/-- The gradient of a parameter in its shape gives the change of each entry. -/
def FitFor (g : Gradients α) (db : Database α) (e e' : Predicate × Matrix α) : Prop :=
  e'.1 = e.1 ∧ ∃ x h w, db.param e.1 = .ok x ∧ x.Shaped h w ∧ e'.2.Shaped h w ∧
    ∀ i k, e'.2.entry i k = g.changeOf e.1 e.2 i k

/-- Gradients are given the shapes of their parameters in turn. -/
theorem forIn_fitGradient {db : Database α} (hfresh : g.fitted = false)
    (done rest : List (Predicate × Matrix α)) (hnodup : ((done ++ rest).map (·.1)).Nodup)
    (hfor : ∀ e ∈ rest, ∃ x h w, db.param e.1 = .ok x ∧ x.Shaped h w ∧ g.IsFor e.1 e.2 h w) :
    ∃ es, Forall₂ (g.FitFor db) rest es ∧ ∀ v : World α,
      (forIn rest PUnit.unit fun e _ => do
        fitGradient e.1 e.2
        pure (ForInStep.yield PUnit.unit) : Run α (Gradients α) PUnit)
        (v, { g with sums := ⟨done ++ rest⟩ }) = .ok ⟨⟩ (v, { g with sums := ⟨done ++ es⟩ }) := by
  induction rest generalizing done with
  | nil => exact ⟨[], .nil, fun v => rfl⟩
  | cons e rest ih =>
    obtain ⟨⟨x, h, w, hx, hxs, he⟩, hfor⟩ := forall_mem_cons.1 hfor
    obtain ⟨m', hrun, hs, hentry⟩ := fitGradient_run (g := { g with sums := ⟨done ++ e :: rest⟩ })
      hfresh he
    have hkey : e.1 ∉ done.map (·.1) := by
      rw [map_append] at hnodup
      exact fun hmem => (nodup_append'.1 hnodup).2.2 hmem mem_cons_self
    have hput : (⟨done ++ e :: rest⟩ : Dictionary Predicate (Matrix α)).put e.1 m' =
        ⟨(done ++ [(e.1, m')]) ++ rest⟩ := by
      rw [append_assoc]
      exact congrArg Dictionary.mk (putEntry_append hkey)
    obtain ⟨es, hall, hrest⟩ := ih (done ++ [(e.1, m')]) (by simpa using hnodup) hfor
    refine ⟨(e.1, m') :: es, .cons ⟨rfl, x, h, w, hx, hxs, hs, hentry⟩ hall, fun v => ?_⟩
    rw [forIn_cons]
    refine bind_ok.2 ⟨_, _, bind_ok.2 ⟨_, _, hrun v, rfl⟩, ?_⟩
    rw [hput]
    simpa using hrest v

/-- Gradients that fit are given the shapes of parameters. -/
theorem Fits.fitGradients_run {db : Database α} (hg : g.Fits db) :
    ∃ es, Forall₂ (g.FitFor db) g.sums.entries es ∧ ∀ v : World α,
      fitGradients (v, g) = .ok () (v, { g with sums := ⟨es⟩, fitted := true }) := by
  cases hfitted : g.fitted with
  | true =>
    refine ⟨g.sums.entries, ?_, fun v => ?_⟩
    · refine forall₂_same.2 fun e he => ?_
      obtain ⟨x, h, w, hx, hxs, hfor⟩ := hg.isFor e he
      rw [IsFor, if_pos hfitted] at hfor
      exact ⟨rfl, x, h, w, hx, hxs, hfor, fun i k => by rw [changeOf, if_pos hfitted]⟩
    · have hsame : { g with sums := ⟨g.sums.entries⟩, fitted := true } = g := by rw [← hfitted]
      rw [hsame]
      refine bind_ok.2 ⟨g, (v, g), rfl, ?_⟩
      rw [hfitted]
      rfl
  | false =>
    obtain ⟨es, hall, hrun⟩ := forIn_fitGradient hfitted [] g.sums.entries hg.nodup hg.isFor
    refine ⟨es, hall, fun v => ?_⟩
    refine bind_ok.2 ⟨g, (v, g), rfl, ?_⟩
    rw [hfitted]
    exact bind_ok.2 ⟨_, _, hrun v, rfl⟩

end Gradients

namespace Database

theorem paramOperand_ok {db : Database α} {x : Operand α} :
    db.paramOperand p = .ok x ↔ db.isParam p = true ∧ db.relations.get? p = some x := by
  unfold paramOperand
  by_cases hp : db.isParam p = true
  · cases h : db.relations.get? p <;> simp [hp]
  · simp [hp]

theorem param_ok {db : Database α} {x : Matrix α} :
    db.param p = .ok x ↔ db.isParam p = true ∧ db.relations.get? p = some (.matrix x) := by
  have hmatrix (y : Operand α) : y.toMatrix "data" = .ok x ↔ y = .matrix x := by
    cases y <;> simp [Operand.toMatrix]
  simp [param, then_ok, paramOperand_ok, hmatrix]

/-- Parameters that come from those of another database, entry by entry. -/
def MovedBy (db db' : Database α) (f : Predicate → ℕ → ℕ → α → α) : Prop :=
  ∀ p x h w, db.param p = .ok x → x.Shaped h w → ∃ m, db'.param p = .ok m ∧ m.Shaped h w ∧
    ∀ i k, m.entry i k = f p i k (x.entry i k)

variable {db db' db'' : Database α} {f f' : Predicate → ℕ → ℕ → α → α}

theorem MovedBy.refl (db : Database α) : db.MovedBy db fun _ _ _ => id :=
  fun _ x _ _ hx hs => ⟨x, hx, hs, fun _ _ => rfl⟩

theorem MovedBy.trans {g : Predicate → ℕ → ℕ → α → α} (hf : db.MovedBy db' f)
    (hf' : db'.MovedBy db'' f') (hg : ∀ p i k x, g p i k x = f' p i k (f p i k x)) :
    db.MovedBy db'' g := by
  intro p x h w hx hs
  obtain ⟨y, hy, hys, hye⟩ := hf p x h w hx hs
  obtain ⟨m, hm, hms, hme⟩ := hf' p y h w hy hys
  exact ⟨m, hm, hms, fun i k => by rw [hme, hye, hg]⟩

/-- A parameter is replaced, and all others stay. -/
theorem movedBy_putRelation {x m : Matrix α} (hx : db.param p = .ok x) (hs : x.Shaped h w)
    (hm : m.Shaped h w) {f : ℕ → ℕ → α → α} (he : ∀ i k, m.entry i k = f i k (x.entry i k)) :
    db.MovedBy (db.putRelation p m) fun q i k x => if p = q then f i k x else x := by
  intro q y h' w' hy hys
  obtain ⟨hparam, hget⟩ := param_ok.1 hy
  have hput : (db.putRelation p m).relations.get? q =
      if p == q then some (.matrix m) else db.relations.get? q := get?_put _ _ _ _
  by_cases hq : p = q
  · subst hq
    obtain rfl := ok_unique hx hy
    rw [BEq.rfl, if_pos rfl] at hput
    refine ⟨m, param_ok.2 ⟨hparam, hput⟩, ?_, fun i k => by simp [he]⟩
    rwa [← hs.height_eq, ← hs.width_eq, hys.height_eq, hys.width_eq] at hm
  · rw [beq_false_of_ne hq] at hput
    exact ⟨y, param_ok.2 ⟨hparam, hput.trans hget⟩, hys, fun i k => by simp [hq]⟩

theorem isParam_congr (h : db'.marks = db.marks) (p : Predicate) :
    db'.isParam p = db.isParam p := by
  rw [isParam, isParam, isMarked, isMarked, h]

end Database

namespace Run

variable {db : Database α} {t : World α × Model α}

omit [ExactScalar α] in
theorem database_run (hdb : t.2.database = some db) : database t = .ok db t := by
  refine bind_ok.2 ⟨t.2, t, rfl, ?_⟩
  rw [hdb]
  rfl

theorem stepParam_run (hdb : t.2.database = some db) {x : Operand α} {db' : Database α}
    (hput : db.putParam p x = .ok db') :
    stepParam p x t =
      .ok () (t.1, { t.2 with database := some db', passed := t.2.passed.push db' }) := by
  refine bind_ok.2 ⟨(), (t.1, { t.2 with database := some db' }), ?_, rfl⟩
  refine bind_ok.2 ⟨db, t, database_run hdb, focus_ok.2 ⟨(t.1, db'), ?_, rfl⟩⟩
  refine bind_ok.2 ⟨db, (t.1, db), ?_, bind_ok.2 ⟨db', (t.1, db), lift_ok.2 ⟨hput, rfl⟩, rfl⟩⟩
  exact state_ok.2 ⟨by rw [hdb]; rfl, by rw [hdb]; rfl⟩

/-- Parameters are moved one after the other. -/
theorem forIn_move (c : α) (d : Predicate → ℕ → ℕ → α) (es : List (Predicate × Matrix α))
    (hes : ∀ e ∈ es, ∃ x h w, db.param e.1 = .ok x ∧ x.Shaped h w ∧ e.2.Shaped h w ∧
      ∀ i k, e.2.entry i k = d e.1 i k) (hdb : t.2.database = some db) :
    ∃ t', (forIn es PUnit.unit fun e _ => do
        let x ← lift ((← database).paramOperand e.1)
        stepParam e.1 (.matrix (← lift (moved x (.matrix e.2) (.real c))))
        pure (ForInStep.yield PUnit.unit) : Modelling α PUnit) t = .ok ⟨⟩ t' ∧
      ∃ db', t'.2.database = some db' ∧
        db.MovedBy db' fun p i k => (fun x => max 0 (x + c * d p i k))^[(es.map (·.1)).count p] := by
  refine exists_forIn (I := fun (done : List (Predicate × Matrix α)) (t : World α × Model α) =>
    ∃ db', t.2.database = some db' ∧ db.MovedBy db' fun p i k =>
      (fun x => max 0 (x + c * d p i k))^[(done.map (·.1)).count p]) ?_ ⟨db, hdb, .refl db⟩
  rintro done e rest hsplit t ⟨db1, hdb1, hmoved⟩
  obtain ⟨x, h, w, hx, hxs, hs, he⟩ := hes e (by simp [hsplit])
  obtain ⟨y, hy, hys, -⟩ := hmoved e.1 x h w hx hxs
  have hparam := Database.param_ok.1 hy
  have hop := Database.paramOperand_ok.2 hparam
  obtain ⟨m, hm, hms, hme⟩ := hys.moved hs c
  have hstep := stepParam_run (x := .matrix m) hdb1 (if_pos hparam.1)
  refine ⟨_, bind_ok.2 ⟨db1, t, database_run hdb1, bind_ok.2 ⟨_, t, lift_ok.2 ⟨hop, rfl⟩,
    bind_ok.2 ⟨m, t, lift_ok.2 ⟨hm, rfl⟩, bind_ok.2 ⟨_, _, hstep, rfl⟩⟩⟩⟩, _, rfl, ?_⟩
  refine hmoved.trans (Database.movedBy_putRelation hy hys hms
    (f := fun i k x => max 0 (x + c * d e.1 i k)) fun i k => by rw [hme, he]) fun p i k x => ?_
  split_ifs with hp
  · simp [← hp, Function.iterate_succ_apply']
  · simp [hp]

/-- Every parameter that has a gradient is moved along it. -/
theorem applyUpdate_run (c : α) (hg : g.Fits db) (hdb : t.2.database = some db) :
    ∃ t', applyUpdate g (.real c) t = .ok () t' ∧ ∃ db', t'.2.database = some db' ∧
      db.MovedBy db' fun p i k x =>
        if p ∈ g.sums.keys then max 0 (x + c * g.change p i k) else x := by
  obtain ⟨es, hall, hfit⟩ := hg.fitGradients_run
  have hkeys : es.map (·.1) = g.sums.keys := by
    rw [Dictionary.keys, ← forall₂_eq_eq_eq, forall₂_map_left_iff,
      forall₂_map_right_iff]
    exact hall.flip.imp fun _ _ h => h.1
  obtain ⟨t', hrun, db', hdb', hmoved⟩ := forIn_move c g.change es (fun e' he' => by
    obtain ⟨e, he, hkey, x, h, w, hx, hxs, hes, hchange⟩ := exists_of_forall₂ hall.flip e' he'
    refine ⟨x, h, w, hkey ▸ hx, hxs, hes, fun i k => ?_⟩
    rw [hchange, Gradients.change, hkey, Dictionary.get?,
      lookup_of_mem (pairwise_of_nodup hg.nodup) he]) hdb
  refine ⟨t', ?_, db', hdb', hmoved.trans (.refl db') fun p i k x => ?_⟩
  · refine bind_ok.2 ⟨((), { g with sums := ⟨es⟩, fitted := true }), t, ?_,
      bind_ok.2 ⟨⟨⟩, t', hrun, rfl⟩⟩
    rw [within, hfit]
  · rw [hkeys, hg.nodup.count]
    split_ifs <;> rfl

end Run

/-- The changes of an entry in an epoch, one for each gradient. -/
def epochChanges (rate : α) (total : ℕ) (p : Predicate) (i k : ℕ)
    (found : List (ℕ × Gradients α)) : List α :=
  (found.filter fun e => p ∈ e.2.sums.keys).map fun e =>
    rate * (e.1 / total) * e.2.change p i k

theorem sum_epochChanges (rate : α) (total : ℕ) (p : Predicate) (i k : ℕ)
    (found : List (ℕ × Gradients α)) : (epochChanges rate total p i k found).sum =
      rate * (found.map fun e => (e.1 / total : α) * e.2.change p i k).sum := by
  induction found with
  | nil => simp [epochChanges]
  | cons e found ih =>
    rw [map_cons, sum_cons, mul_add, ← ih]
    by_cases hp : p ∈ e.2.sums.keys
    · simp [hp, epochChanges, mul_assoc]
    · have hzero : e.2.change p i k = 0 := by
        rw [Gradients.change, Dictionary.get?, lookup_of_notMem hp]
      simp [hp, epochChanges, hzero]

theorem Gradients.Fits.congr {db db' : Database α} {f : Predicate → ℕ → ℕ → α → α} (hg : g.Fits db)
    (hmoved : db.MovedBy db' f) : g.Fits db' where
  nodup := hg.nodup
  isFor e he := by
    obtain ⟨x, h, w, hx, hxs, hfor⟩ := hg.isFor e he
    obtain ⟨m, hm, hms, -⟩ := hmoved e.1 x h w hx hxs
    exact ⟨m, h, w, hm, hms, hfor⟩

/-- Parameters are moved along the gradients of minibatches. -/
theorem Run.forIn_applyUpdate {l : Learner α} {rate : α} (hrate : l.rate.number = .ok rate)
    {total : ℕ} (htotal : total ≠ 0) (found : List (ℕ × Gradients α)) {db : Database α}
    (hfits : ∀ e ∈ found, e.2.Fits db) {t : World α × Model α} (hdb : t.2.database = some db) :
    ∃ t', (forIn found PUnit.unit fun e _ => do
        if total = 0 then fail .divisionByZero
        applyUpdate e.2 (.real ((← lift l.rate.number) * (Scalar.ofNat e.1 / Scalar.ofNat total)))
        pure (ForInStep.yield PUnit.unit) : Modelling α PUnit) t = .ok ⟨⟩ t' ∧
      ∃ db', t'.2.database = some db' ∧
        db.MovedBy db' fun p i k x => clippedSum x (epochChanges rate total p i k found) := by
  refine exists_forIn (I := fun (done : List (ℕ × Gradients α)) (t : World α × Model α) =>
    ∃ db', t.2.database = some db' ∧ db.MovedBy db' fun p i k x =>
      clippedSum x (epochChanges rate total p i k done)) ?_ ⟨db, hdb, .refl db⟩
  rintro done e rest hsplit t ⟨db1, hdb1, hmoved⟩
  have he : e.2.Fits db1 := (hfits e (by simp [hsplit])).congr hmoved
  obtain ⟨t', hrun, db', hdb', hone⟩ := applyUpdate_run (rate * (e.1 / total)) he hdb1
  refine ⟨t', ?_, db', hdb', hmoved.trans hone fun p i k x => ?_⟩
  · rw [if_neg htotal]
    refine bind_ok.2 ⟨rate, t, lift_ok.2 ⟨hrate, rfl⟩, bind_ok.2 ⟨(), t', ?_, rfl⟩⟩
    rw [Scalar.ofNat_eq, Scalar.ofNat_eq]
    exact hrun
  · by_cases hp : p ∈ e.2.sums.keys
    · simp [epochChanges, hp, clippedSum]
    · simp [epochChanges, hp]

/-- The parameters after an epoch: after regularization every parameter is a sum that is clipped at
every minibatch. Clipping once gives the same exactly if no sum of the last changes exceeds the
result. -/
theorem applyEpoch_param {l : Learner α} {rate : α} (hrate : l.rate.number = .ok rate)
    {found : List (ℕ × Gradients α)} (htotal : 0 < tally (found.map (·.1)))
    {t u : World α × Model α} (hregular : regularize l.regularizer t = .ok () u) {db : Database α}
    (hdb : u.2.database = some db) (hfits : ∀ e ∈ found, e.2.Fits db) :
    ∃ v db', applyEpoch l found (tally (found.map (·.1))) t = .ok () v ∧ v.2.database = some db' ∧
      ∀ p m₀ h w, db.param p = .ok m₀ → m₀.Shaped h w → ∃ m, db'.param p = .ok m ∧ m.Shaped h w ∧
        ∀ i k, let ds := epochChanges rate (tally (found.map (·.1))) p i k found
          m.entry i k = clippedSum (m₀.entry i k) ds ∧
          (0 ≤ m₀.entry i k → (m.entry i k = max 0 (m₀.entry i k + rate *
              (found.map fun e => (e.1 / tally (found.map (·.1)) : α) * e.2.change p i k).sum) ↔
            ∀ s, s <:+ ds → s.sum ≤ max 0 (m₀.entry i k + ds.sum))) := by
  obtain ⟨v, hrun, db', hdb', hparams⟩ := forIn_applyUpdate hrate htotal.ne' found hfits hdb
  refine ⟨v, db', bind_ok.2 ⟨(), u, hregular, bind_ok.2 ⟨⟨⟩, v, hrun, rfl⟩⟩, hdb', fun p m₀ h w hm0 hs => ?_⟩
  obtain ⟨m, hm, hms, hme⟩ := hparams p m₀ h w hm0 hs
  refine ⟨m, hm, hms, fun i k => ⟨hme i k, fun hnonneg => ?_⟩⟩
  rw [hme, ← sum_epochChanges]
  exact clippedSum_eq_max_iff hnonneg _

namespace Sample

def learned : Database ℚ :=
  { database with params := [.ofPredicate ⟨"edge", 2⟩], marks := [.ofPredicate ⟨"edge", 2⟩] }

def model : Model ℚ := { program, database := some learned }

/-- A learner that goes through the examples once. -/
def learner : Learner ℚ where
  method := .parallel
  epochs := .whole 1
  rate := .whole 1
  batchSize := .whole 1
  workers := .whole 1
  tracer := .silent
  epochTracer := .silent
  regularizer := .none

/-- A gradient of one edge, found on one example. -/
def edgeGradient (x : ℚ) : Gradients ℚ where
  sums := ⟨[(⟨"edge", 2⟩, ⟨3, #[[], [(1, x)], []]⟩)]⟩
  figures := ⟨[("n", .integer 1)]⟩

def edges : Matrix ℚ := ⟨3, #[[], [(1, 1), (2, 2)], [(2, 3)]]⟩

theorem param_edge : learned.param ⟨"edge", 2⟩ = .ok edges := by
  with_unfolding_all rfl

theorem fits_edgeGradient (x : ℚ) : (edgeGradient x).Fits learned where
  nodup := nodup_singleton _
  isFor e he := by
    obtain rfl := mem_singleton.1 he
    refine ⟨edges, 3, 3, param_edge, Matrix.shaped_iff.2 (by decide), ?_, ?_⟩
    · exact Matrix.shaped_iff.2 ⟨rfl, rfl, by simp⟩
    · change (Scalar.ofInt 1 : ℚ) ≠ 0
      decide +kernel

end Sample

open Sample in
/-- A weight moved below zero and up again ends at two, not at one. -/
theorem applyEpoch_param_opposed : ∃ v db' m,
    applyEpoch learner [(1, edgeGradient (-4)), (1, edgeGradient 4)] 2 (world, model) = .ok () v ∧
      v.2.database = some db' ∧ db'.param ⟨"edge", 2⟩ = .ok m ∧ edges.entry 1 1 = 1 ∧
        m.entry 1 1 = 2 := by
  have hfits : ∀ e ∈ [(1, edgeGradient (-4)), (1, edgeGradient 4)], e.2.Fits learned := by
    intro e he
    rcases mem_pair.1 he with rfl | rfl
    · exact fits_edgeGradient (-4)
    · exact fits_edgeGradient 4
  have hrate : learner.rate.number = .ok 1 := by decide +kernel
  obtain ⟨v, db', hrun, hdb', hparam⟩ := applyEpoch_param (l := learner) (t := (world, model))
    hrate (by decide) rfl rfl hfits
  obtain ⟨m, hm, -, hentry⟩ := hparam ⟨"edge", 2⟩ edges 3 3 param_edge
    (Matrix.shaped_iff.2 (by decide))
  refine ⟨v, db', m, hrun, hdb', hm, by decide +kernel, (hentry 1 1).1.trans ?_⟩
  decide +kernel

end BeliefLogic
