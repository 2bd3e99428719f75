import BeliefLogic.Proofs.Matrix.Broadcast

/-!
# Softmax

Neither subtracting the greatest entry nor the choice of representation changes a softmax.
-/

namespace BeliefLogic.Matrix

open Outcome List

variable {α : Type} {h w : ℕ} {m : Matrix α} {limit : DenseLimit α} {r : Row α}

section

variable [ExactScalar α]

/-- A function applied to a row that stores no column twice. -/
theorem rowEntry_map_of_nodup (hr : (r.map (·.1)).Nodup) {g : α → α} (hg : g 0 = 0) (k : ℕ) :
    rowEntry (r.map fun e => (e.1, g e.2)) k = g (rowEntry r k) := by
  have hcols : ((r.map fun e => (e.1, g e.2)).map (·.1)).Nodup := by
    simpa [Function.comp_def] using hr
  by_cases hk : ∃ e ∈ r, e.1 = k
  · obtain ⟨e, he, rfl⟩ := hk
    rw [rowEntry_of_mem hr he]
    exact rowEntry_of_mem hcols (mem_map_of_mem he)
  · have hno : ∀ e ∈ r, e.1 ≠ k := fun e he heq => hk ⟨e, he, heq⟩
    rw [rowEntry_eq_zero hno, hg]
    refine rowEntry_eq_zero fun e he => ?_
    obtain ⟨f, hf, rfl⟩ := mem_map.1 he
    exact hno f hf

theorem Reduced.sum_map (hr : Reduced r) (hb : RowBounded w r) {g : α → α} (hg : g 0 = 0) :
    (r.map fun e => g e.2).sum = ∑ j ∈ Finset.range w, g (rowEntry r j) := by
  have hbound : RowBounded w (r.map fun e => (e.1, g e.2)) := by
    intro e he
    obtain ⟨f, hf, rfl⟩ := mem_map.1 he
    exact hb f hf
  have hsum := sum_values_eq hbound
  rw [map_map] at hsum
  simpa only [Function.comp_def, rowEntry_map_of_nodup hr.nodup hg] using hsum

/-- The rows normalized: the null entity has a small score of its own. -/
def scores (m : Matrix α) (i k : ℕ) : α := (if k = 1 then nullScore else 0) + m.entry i k

/-- Rows get a null score if there is a column for it. -/
theorem Shaped.withNull (hm : m.Shaped h w) (hw : 1 < w) :
    ∃ p, m.withNull = .ok p ∧ p.Shaped h w ∧ (∀ i < h, ∀ k, p.entry i k = m.scores i k) ∧
      ∀ i, Reduced (p.row i) := by
  have hnull : ∃ q : Matrix α, Database.nullRows h w = .ok q ∧ q.Shaped h w ∧
      ∀ i < h, ∀ k, q.entry i k = if k = 1 then 1 else 0 := by
    unfold Database.nullRows
    split
    · next h0 => exact ⟨_, rfl, h0 ▸ shaped_empty 0 w, by omega⟩
    · have hrow (i : ℕ) : (⟨w, Array.replicate h [(1, 1)]⟩ : Matrix α).row i =
          if i < h then [(1, 1)] else [] := by
        simp only [row, Array.getElem?_replicate]
        split <;> rfl
      refine ⟨⟨w, Array.replicate h [(1, 1)]⟩, rfl, ⟨by simp [height], rfl, fun i => ?_⟩,
        fun i hi k => ?_⟩
      · rw [hrow]
        split
        · simpa [RowBounded] using hw
        · exact rowBounded_nil w
      · rw [entry_eq, hrow, if_pos hi]
        simp [eq_comm]
  obtain ⟨q, hq, hqs, hqe⟩ := hnull
  obtain ⟨c, hc, hcs, hce⟩ := hqs.scale nullScore
  obtain ⟨p, hp, hps, hpe, hred⟩ := hcs.add hm
  refine ⟨p, ?_, hps, fun i hi k => ?_, hred⟩
  · rw [Matrix.withNull, hm.height_eq, hm.width_eq]
    exact then_ok.2 ⟨q, hq, then_ok.2 ⟨c, hc, hp⟩⟩
  · rw [hpe, hce, hqe i hi, scores]
    simp

end

variable [ExactExponential α]

open ExactScalar (exp)

/-- What a score counts; a score of zero is an absent entry. -/
def mass (x : α) : α := if x = 0 then 0 else exp x

def softmaxOf (w : ℕ) (f : ℕ → α) (k : ℕ) : α := mass (f k) / ∑ j ∈ Finset.range w, mass (f j)

@[simp] theorem mass_zero : mass (0 : α) = 0 := if_pos rfl

theorem mass_of_ne_zero {x : α} (hx : x ≠ 0) : mass x = exp x := if_neg hx

theorem mass_shift (x t : α) : (if x = 0 then 0 else exp (x - t)) = mass x * exp (-t) := by
  unfold mass
  split
  · rw [zero_mul]
  · rw [sub_eq_add_neg, ExactExponential.exp_add]

theorem share_shift (a b t : α) : a * exp (-t) / (b * exp (-t)) = a / b :=
  mul_div_mul_right a b (ExactExponential.exp_pos (-t)).ne'

theorem dense_softmaxRow (r : List α) :
    Dense.softmaxRow r = .ok (r.map fun x => mass x / (r.map mass).sum) := by
  generalize htop : Dense.rowMax r = top
  have hmasked : ((r.zip (r.map fun x => exp (x - top))).map fun p : α × α =>
      if Scalar.isZero p.1 then 0 else p.2) = r.map fun x => mass x * exp (-top) := by
    rw [zip_map_right, map_map]
    have : r.zip r = r.map fun x => (x, x) := by
      rw [zip_eq_zipWith, zipWith_self]
    rw [this, map_map]
    refine map_congr_left fun x _ => ?_
    simpa using mass_shift x top
  have hsum : (r.map fun x => mass x * exp (-top)).sum = (r.map mass).sum * exp (-top) :=
    sum_map_mul_right ..
  simp only [Dense.softmaxRow, htop, except_mapM_eq (fun x _ => Scalar.sub?_eq x top),
    except_mapM_eq (fun x _ => Scalar.exp?_eq x),
    map_map, bind, Except.bind, Function.comp_def, hmasked, Scalar.sum?_eq, hsum,
    except_mapM_eq (fun e _ => Scalar.div?_eq e _), share_shift]

theorem dense_softmaxRow_window {lo hi : ℕ} {f : ℕ → α} (hf : Vanishes lo hi f) (hw : hi < w) :
    Dense.softmaxRow (windowOf lo hi f) = .ok (windowOf lo hi (softmaxOf w f)) := by
  have hmass : Vanishes lo hi fun k => mass (f k) := fun k hk => by
    simp [hf k hk]
  have hmap : (windowOf lo hi f).map mass = windowOf lo hi fun k => mass (f k) := by
    simp [windowOf]
  rw [dense_softmaxRow, hmap, sum_windowOf hmass hw]
  simp [windowOf, softmaxOf]

/-- The softmax of a stored row that is reduced. -/
theorem Reduced.softmaxRow (hr : Reduced r) (hne : r ≠ []) (hb : RowBounded w r) (floor : α) :
    ∃ r', softmaxRow floor r = .ok r' ∧ RowBounded w r' ∧
      ∀ k, rowEntry r' k = softmaxOf w (rowEntry r) k := by
  obtain ⟨e, r0, rfl⟩ := exists_cons_of_ne_nil hne
  set r := e :: r0 with hdef
  generalize htop : (r0.map (·.2)).foldl (fun a b => if a < b then b else a) e.2 = top
  set total := ∑ j ∈ Finset.range w, mass (rowEntry r j) with htotal
  have hraised : ((r.map (·.2)).mapM fun y => (do Scalar.exp? (← Scalar.sub? y top) :
      Except Error α)) = .ok ((r.map (·.2)).map fun y => exp (y - top)) :=
    except_mapM_eq fun y _ => by simp
  have hvalues : (r.map (·.2)).map (fun y => exp (y - top)) =
      r.map fun e => mass e.2 * exp (-top) := by
    rw [map_map]
    refine map_congr_left fun e he => ?_
    have := mass_shift e.2 top
    rw [if_neg (hr.nonzero e he)] at this
    exact this
  have hsum : ((r.map (·.2)).map fun y => exp (y - top)).sum = total * exp (-top) := by
    rw [hvalues, sum_map_mul_right, hr.sum_map hb mass_zero]
  have hshares : ((r.map (·.2)).map fun y => exp (y - top)).map (fun e => e / (total * exp (-top))) =
      r.map fun e => mass e.2 / total := by
    rw [hvalues, map_map]
    exact map_congr_left fun e _ => share_shift _ _ _
  have hpos : 0 < total := by
    rw [htotal, ← hr.sum_map hb mass_zero]
    refine sum_pos _ (fun x hx => ?_) (by simp)
    obtain ⟨e, he, rfl⟩ := mem_map.1 hx
    rw [mass_of_ne_zero (hr.nonzero e he)]
    exact ExactExponential.exp_pos _
  have hkept : ((r.zip (r.map fun e => mass e.2 / total)).map fun p : (ℕ × α) × α =>
      (p.1.1, if Scalar.isZero p.2 then floor else p.2)) =
      r.map fun e => (e.1, mass e.2 / total) := by
    have hzip : r.zip (r.map fun e => mass e.2 / total) = r.map fun e => (e, mass e.2 / total) := by
      rw [zip_map_right, zip_eq_zipWith, zipWith_self, map_map]
      rfl
    rw [hzip, map_map]
    refine map_congr_left fun e he => ?_
    have hne : mass e.2 / total ≠ 0 := by
      rw [mass_of_ne_zero (hr.nonzero e he)]
      exact (div_pos (ExactExponential.exp_pos _) hpos).ne'
    simp [hne]
  refine ⟨r.map fun e => (e.1, mass e.2 / total), ?_, fun f hf => ?_, fun k => ?_⟩
  · have hcons : r.map (·.2) = e.2 :: r0.map (·.2) := rfl
    rw [Matrix.softmaxRow, hcons]
    simp only [htop]
    refine then_ok.2 ⟨_, hraised, ?_⟩
    simp only [Scalar.sum_eq, hsum]
    refine then_ok.2 ⟨_, except_mapM_eq (fun e _ => Scalar.div?_eq e _), ?_⟩
    rw [hshares]
    exact congrArg Except.ok hkept
  · obtain ⟨e', he', rfl⟩ := mem_map.1 hf
    exact hb e' he'
  · rw [rowEntry_map_of_nodup hr.nodup (g := fun x => mass x / total) (by simp)]
    rfl

/-- Rows that all store something are normalized row by row. -/
theorem Shaped.normalized (hm : m.Shaped h w) (hh : 0 < h) (hred : ∀ i, Reduced (m.row i))
    (hne : ∀ i < h, m.row i ≠ []) (hlimit : limit ≠ .undefined) :
    ∃ p, m.normalized limit = .ok p ∧ p.Shaped h w ∧
      ∀ i < h, ∀ k, p.entry i k = softmaxOf w (m.entry i) k := by
  have hentry (i : ℕ) : m.entry i = rowEntry (m.row i) := funext fun k => entry_eq m i k
  rcases denseCopy_cases hm limit with ⟨-, hnone⟩ | ⟨-, hu⟩ | ⟨sparse, dense, hc⟩ |
    ⟨lo, hi, hc, hle, hlt, hwithin⟩
  · -- Something is stored in the first row.
    obtain ⟨e, he⟩ := exists_mem_of_ne_nil _ (hne 0 hh)
    have : e.1 ∈ m.columns := mem_flatMap.2
      ⟨m.row 0, mem_of_getElem? (hm.getElem?_rows hh), mem_map_of_mem he⟩
    simp [hnone] at this
  · exact absurd hu hlimit
  · have hstored : ∀ r ∈ m.rows.toList, ∃ r', softmaxRow (leastShare : α) r = .ok r' ∧
        RowBounded w r' ∧ ∀ k, rowEntry r' k = softmaxOf w (rowEntry r) k := by
      intro r hr
      obtain ⟨i, hi⟩ := mem_iff_getElem?.1 hr
      have hih : i < h := hm.length_rows ▸ (List.getElem?_eq_some_iff.1 hi).1
      obtain rfl := Option.mem_unique (hm.getElem?_rows hih) hi
      exact (hred i).softmaxRow (hne i hih) (hm.bounded i) _
    obtain ⟨rows, hrows, hall⟩ := exists_except_mapM hstored
    have hlen : rows.length = h := hall.length_eq ▸ hm.length_rows
    have hrow (i : ℕ) : RowBounded w ((⟨m.width, rows.toArray⟩ : Matrix α).row i) ∧
        ∀ k, rowEntry ((⟨m.width, rows.toArray⟩ : Matrix α).row i) k =
          softmaxOf w (rowEntry (m.row i)) k := by
      rw [row, row, ← Array.getElem?_toList, ← Array.getElem?_toList]
      exact forall₂_getD hall ⟨rowBounded_nil w, by simp [softmaxOf]⟩ i
    refine ⟨⟨m.width, rows.toArray⟩, ?_, ⟨by simp [height, hlen], hm.width_eq, fun i => (hrow i).1⟩,
      fun i _ k => ?_⟩
    · rw [Matrix.normalized, hc]
      refine then_ok.2 ⟨_, rfl, then_ok.2 ⟨rows.toArray, ?_, rfl⟩⟩
      rw [Array.mapM_eq_mapM_toList, hrows]
      rfl
    · rw [entry_eq, (hrow i).2 k, hentry]
  · have hvan (i : ℕ) : Vanishes lo hi (softmaxOf w (m.entry i)) := by
      intro k hk
      rw [softmaxOf, hwithin.vanishes i k hk, mass_zero, zero_div]
    refine ⟨_, ?_, toMatrix_windows (hi + 1 - lo) h hlt hvan hle rfl⟩
    rw [Matrix.normalized, hc, hm.denseRows_eq hwithin]
    refine then_ok.2 ⟨_, rfl, then_ok.2 ⟨_, then_ok.2 ⟨_, ?_, rfl⟩, rfl⟩⟩
    rw [mapM_map]
    exact except_mapM_eq fun i _ => dense_softmaxRow_window (hwithin.vanishes i) hlt

/-- The softmax of rows each of which has some score. -/
theorem Shaped.softmax (hm : m.Shaped h w) (hh : 0 < h) (hw : 1 < w)
    (hscore : ∀ i < h, ∃ k, m.scores i k ≠ 0) (hlimit : limit ≠ .undefined) :
    ∃ q p, m.withNull = .ok q ∧ q.normalized limit = .ok p ∧ p.Shaped h w ∧
      ∀ i < h, ∀ k, p.entry i k = softmaxOf w (m.scores i) k := by
  obtain ⟨q, hq, hqs, hqe, hred⟩ := hm.withNull hw
  have hne (i : ℕ) (hi : i < h) : q.row i ≠ [] := by
    intro hnil
    obtain ⟨k, hk⟩ := hscore i hi
    rw [← hqe i hi, entry_eq, hnil] at hk
    exact hk rfl
  obtain ⟨p, hp, hps, hpe⟩ := hqs.normalized hh hred hne hlimit
  refine ⟨q, p, hq, hp, hps, fun i hi k => ?_⟩
  rw [hpe i hi, show q.entry i = m.scores i from funext (hqe i hi)]

/-- A row that has a softmax has some score. -/
theorem Shaped.of_softmax_ok {p : Matrix α} (hm : m.Shaped 1 w) (h : m.softmax limit = .ok p) :
    1 < w ∧ (∃ k, m.scores 0 k ≠ 0) ∧ limit ≠ .undefined := by
  obtain ⟨q, hq, hp⟩ := then_ok.1 h
  have hw : 1 < w := by
    obtain ⟨null, hnull, -⟩ := then_ok.1 hq
    rw [hm.height_eq, hm.width_eq, Database.nullRows] at hnull
    by_contra hlt
    simp [hlt] at hnull
  obtain ⟨q', hq', hqs, hqe, hred⟩ := hm.withNull hw
  obtain rfl := ok_unique hq hq'
  refine ⟨hw, ?_, ?_⟩
  · have hne : q.row 0 ≠ [] := by
      intro hnil
      have hcols : q.columns = [] := by
        simp [columns, hqs.toList_rows, hnil]
      simp [Matrix.normalized, denseCopy, hcols] at hp
    obtain ⟨e, he⟩ := exists_mem_of_ne_nil _ hne
    refine ⟨e.1, ?_⟩
    rw [← hqe 0 one_pos, entry_eq, rowEntry_of_mem (hred 0).nodup he]
    exact (hred 0).nonzero e he
  · rintro rfl
    rcases denseCopy_cases hqs DenseLimit.undefined with ⟨hc, -⟩ | ⟨hc, -⟩ | ⟨sparse, dense, hc⟩ |
      ⟨lo, hi, hc, -⟩
    · simp [Matrix.normalized, hc] at hp
    · simp [Matrix.normalized, hc] at hp
    all_goals
      unfold denseCopy at hc
      split at hc
      · simp [DenseLimit.allows] at hc
      · cases hc

end BeliefLogic.Matrix
