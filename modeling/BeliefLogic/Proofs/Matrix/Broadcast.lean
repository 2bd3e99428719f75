import BeliefLogic.Proofs.Matrix.Combined
import BeliefLogic.Proofs.Outcome

/-!
# Broadcasting

A single row stands for as many rows as are needed, in dense copies and in stored entries.
-/

namespace BeliefLogic.Matrix

open Outcome List

variable {α : Type} {m n v : Matrix α} {h h' hi lo w : ℕ}

def Within (m : Matrix α) (lo hi : ℕ) : Prop := ∀ r ∈ m.rows.toList, ∀ e ∈ r, lo ≤ e.1 ∧ e.1 ≤ hi

theorem Within.mono {lo' hi' : ℕ} (h : m.Within lo hi) (hlo : lo' ≤ lo) (hhi : hi ≤ hi') :
    m.Within lo' hi' :=
  fun r hr e he => ⟨hlo.trans (h r hr e he).1, (h r hr e he).2.trans hhi⟩

theorem Within.row (h : m.Within lo hi) (i : ℕ) : ∀ e ∈ m.row i, lo ≤ e.1 ∧ e.1 ≤ hi := by
  rw [Matrix.row, ← Array.getElem?_toList]
  cases hr : m.rows.toList[i]? with
  | none => simp
  | some r => exact h r (mem_of_getElem? hr)

theorem within_of_columns (hlo : m.columns.min? = some lo) (hhi : m.columns.max? = some hi) :
    m.Within lo hi := by
  intro r hr e he
  have hmem : e.1 ∈ m.columns := mem_flatMap.2 ⟨r, hr, mem_map_of_mem he⟩
  exact ⟨(min?_eq_some_iff.1 hlo).2 _ hmem, (max?_eq_some_iff.1 hhi).2 _ hmem⟩

/-- The greatest stored column is below the width. -/
theorem Shaped.max_lt (hm : m.Shaped h w) (hhi : m.columns.max? = some hi) : hi < w := by
  obtain ⟨r, hr, hrow⟩ := mem_flatMap.1 (max?_eq_some_iff.1 hhi).1
  obtain ⟨e, he, heq⟩ := mem_map.1 hrow
  obtain ⟨i, hi, hri⟩ := getElem_of_mem hr
  have := hm.bounded i e (by
    have hi' : i < m.rows.size := hi
    simp only [row, Array.getElem?_eq_getElem hi']
    simpa [← hri] using he)
  omega

theorem Shaped.height_pos (hm : m.Shaped h w) (hlo : m.columns.min? = some lo) : 0 < h := by
  obtain ⟨r, hr, -⟩ := mem_flatMap.1 (min?_eq_some_iff.1 hlo).1
  rw [← hm.height_eq, height]
  exact length_pos_of_mem hr

theorem Shaped.getElem?_rows (hm : m.Shaped h w) {i : ℕ} (hi : i < h) :
    m.rows.toList[i]? = some (m.row i) := by
  have hi' : i < m.rows.size := by rw [← hm.height_eq] at hi; exact hi
  simp [row, hi']

theorem Shaped.length_rows (hm : m.Shaped h w) : m.rows.toList.length = h := by
  simpa [height] using hm.height_eq

theorem Shaped.toList_rows (hv : v.Shaped 1 w) : v.rows.toList = [v.row 0] := by
  obtain ⟨r, hr⟩ := length_eq_one_iff.1 hv.length_rows
  have := hv.getElem?_rows Nat.one_pos
  rw [hr] at this ⊢
  simpa using this

/-- The row with a number; a single row stands for every row. -/
def rowFor {β : Type} (rs : List (List β)) (i : ℕ) : List β :=
  (rs[if rs.length = 1 then 0 else i]?).getD []

/-- Rows paired one by one, where a single row is paired with every row. -/
def paired {β γ : Type} (rs : List (List β)) (ss : List (List γ)) : List (List β × List γ) :=
  (List.range (max rs.length ss.length)).map fun i => (rowFor rs i, rowFor ss i)

section

variable {β γ : Type} {rs : List (List β)} {ss : List (List γ)}

theorem rowFor_of_lt {i : ℕ} (h : i < rs.length) : rowFor rs i = rs.get ⟨i, h⟩ := by
  have hi : (if rs.length = 1 then 0 else i) = i := by split <;> omega
  simp [rowFor, hi, h]

@[simp] theorem rowFor_single (r : List β) (i : ℕ) : rowFor [r] i = r := by
  simp [rowFor]

/-- Rows are paired one by one, or a single row with all rows of the other. -/
theorem paired_cases (hr : rs ≠ []) (hs : ss ≠ [])
    (hh : rs.length = ss.length ∨ rs.length = 1 ∨ ss.length = 1) :
    (rs.length = ss.length ∧ paired rs ss = rs.zip ss) ∨
    (∃ r, rs = [r] ∧ 1 ≠ ss.length ∧ paired rs ss = ss.map (r, ·)) ∨
    ∃ r r' rs' s, rs = r :: r' :: rs' ∧ ss = [s] ∧ paired rs ss = rs.map (·, s) := by
  by_cases heq : rs.length = ss.length
  · refine .inl ⟨heq, ext_getElem (by simp [paired, heq]) fun i _ hi => ?_⟩
    rw [length_zip, lt_min_iff] at hi
    simp [paired, rowFor_of_lt hi.1, rowFor_of_lt hi.2]
  · rcases hh.resolve_left heq with hone | hone
    · obtain ⟨r, rfl⟩ := length_eq_one_iff.1 hone
      have hmax : max 1 ss.length = ss.length := max_eq_right (length_pos_iff.2 hs)
      refine .inr (.inl ⟨r, rfl, heq, ext_getElem (by simp [paired, hmax]) fun i _ hi => ?_⟩)
      rw [length_map] at hi
      simp [paired, rowFor_of_lt hi]
    · obtain ⟨s, rfl⟩ := length_eq_one_iff.1 hone
      have hp : paired rs [s] = rs.map (·, s) := by
        have hmax : max rs.length 1 = rs.length := max_eq_left (length_pos_iff.2 hr)
        refine ext_getElem (by simp [paired, hmax]) fun i _ hi => ?_
        rw [length_map] at hi
        simp [paired, rowFor_of_lt hi]
      rcases rs with _ | ⟨r, _ | ⟨r', rs⟩⟩
      · exact absurd rfl hr
      · exact absurd rfl heq
      · exact .inr (.inr ⟨r, r', rs, s, rfl, rfl, hp⟩)

end

variable [ExactScalar α]

/-- The entries of a matrix whose single row stands for all rows. -/
def spread (m : Matrix α) (i k : ℕ) : α := m.entry (if m.height = 1 then 0 else i) k

theorem spread_of_height_one (h : m.height = 1) (i k : ℕ) : m.spread i k = m.entry 0 k := by
  rw [spread, if_pos h]

theorem Shaped.spread_single (hm : m.Shaped 1 w) (i k : ℕ) : m.spread i k = m.entry 0 k :=
  spread_of_height_one hm.height_eq i k

theorem Shaped.spread_of_lt {i : ℕ} (hm : m.Shaped h w) (hi : i < h) (k : ℕ) :
    m.spread i k = m.entry i k := by
  rw [spread, hm.height_eq]
  split
  · next h1 => rw [show i = 0 by omega]
  · rfl

theorem rowEntry_filterMap_cons {β : Type} (f : β → Option (ℕ × α)) (b : β) (bs : List β) (k : ℕ) :
    rowEntry ((b :: bs).filterMap f) k =
      (f b).elim 0 (fun e => if e.1 = k then e.2 else 0) + rowEntry (bs.filterMap f) k := by
  cases h : f b <;> simp [h]

/-- Keeping the nonzero values of a list at successive columns. -/
theorem rowEntry_zipIdx (xs : List α) (first n k : ℕ) :
    rowEntry ((xs.zipIdx n).filterMap fun (x, j) =>
      if Scalar.isZero x then none else some (j + first, x)) k =
      if first + n ≤ k then (xs[k - (first + n)]?).getD 0 else 0 := by
  induction xs generalizing n with
  | nil => simp
  | cons x xs ih =>
    have hx : ((if Scalar.isZero x then none else some (n + first, x) : Option (ℕ × α)).elim 0
        fun e => if e.1 = k then e.2 else 0) = if n + first = k then x else 0 := by
      by_cases hx : x = 0 <;> simp [hx]
    rw [zipIdx_cons, rowEntry_filterMap_cons, hx, ih]
    rcases lt_trichotomy k (first + n) with hk | hk | hk
    · rw [if_neg (by omega), if_neg (by omega), if_neg (by omega), add_zero]
    · rw [if_pos (by omega)]
      simp [hk]
    · have : k - (first + n) = (k - (first + (n + 1))) + 1 := by omega
      rw [if_neg (by omega), if_pos (by omega), if_pos (by omega), this]
      simp

/-- A matrix of dense rows has their values in the window. -/
theorem toMatrix_spec (width : ℕ) {rows : List (List α)} {w : Window}
    (hlen : ∀ r ∈ rows, w.first + r.length ≤ w.width) :
    ((⟨width, rows⟩ : Dense α).toMatrix w).Shaped rows.length w.width ∧
      ∀ i k, ((⟨width, rows⟩ : Dense α).toMatrix w).entry i k =
        if w.first ≤ k then (((rows[i]?).getD [])[k - w.first]?).getD 0 else 0 := by
  have hrow (i : ℕ) : ((⟨width, rows⟩ : Dense α).toMatrix w).row i =
      ((rows[i]?).getD []).zipIdx.filterMap fun (x, j) =>
        if Scalar.isZero x then none else some (j + w.first, x) := by
    simp only [Dense.toMatrix, row, getElem?_toArray, getElem?_map]
    cases rows[i]? <;> simp
  refine ⟨⟨by simp [height, Dense.toMatrix], rfl, fun i e he => ?_⟩, fun i k => ?_⟩
  · rw [hrow] at he
    obtain ⟨⟨x, j⟩, hj, hkeep⟩ := mem_filterMap.1 he
    have hj' := mem_zipIdx hj
    rcases hr : rows[i]? with _ | r
    · simp [hr] at hj
    · have := hlen r (mem_of_getElem? hr)
      simp only [hr, Option.getD_some] at hj'
      by_cases hx : x = 0
      · simp [hx] at hkeep
      · obtain rfl : (j + w.first, x) = e := by simpa [hx] using hkeep
        omega
  · rw [entry_eq, hrow, rowEntry_zipIdx]
    simp

/-- The values of a function in a window of columns. -/
def windowOf (lo hi : ℕ) (f : ℕ → α) : List α := (List.range (hi + 1 - lo)).map fun c => f (c + lo)

/-- A function vanishes outside a window of columns. -/
def Vanishes (lo hi : ℕ) (f : ℕ → α) : Prop := ∀ k, k < lo ∨ hi < k → f k = 0

theorem getElem?_windowOf {f : ℕ → α} (hf : Vanishes lo hi f) (k : ℕ) :
    (if lo ≤ k then ((windowOf lo hi f)[k - lo]?).getD 0 else 0) = f k := by
  split
  · next hk =>
    by_cases hlt : k - lo < hi + 1 - lo
    · simp [windowOf, hlt, Nat.sub_add_cancel hk]
    · rw [hf k (by omega)]
      simp [windowOf, hlt]
  · next hk => rw [hf k (by omega)]

/-- Sums over a window are sums over all columns. -/
theorem sum_windowOf {f : ℕ → α} (hf : Vanishes lo hi f) (hw : hi < w) :
    (windowOf lo hi f).sum = ∑ j ∈ Finset.range w, f j := by
  rw [windowOf, sum_map_range]
  have hinj : Set.InjOn (· + lo) (Finset.range (hi + 1 - lo) : Set ℕ) := by
    intro a _ b _ h
    simpa using h
  rw [← Finset.sum_image hinj]
  refine Finset.sum_subset (fun j hj => ?_) fun j _ hj => hf j ?_
  · obtain ⟨c, hc, rfl⟩ := Finset.mem_image.1 hj
    have := Finset.mem_range.1 hc
    exact Finset.mem_range.2 (by omega)
  · by_contra hcon
    exact hj (Finset.mem_image.2 ⟨j - lo, Finset.mem_range.2 (by omega), by omega⟩)

theorem Within.vanishes (h : m.Within lo hi) (i : ℕ) : Vanishes lo hi (m.entry i) := by
  intro k hk
  rw [entry_eq]
  refine rowEntry_eq_zero fun e he heq => ?_
  have := h.row i e he
  omega

/-- A matrix of functions that vanish outside a window. -/
theorem toMatrix_windows (width h : ℕ) {f : ℕ → ℕ → α} (hlt : hi < w)
    (hf : ∀ i, Vanishes lo hi (f i)) (hle : lo ≤ hi) {d : Dense α}
    (hd : d = ⟨width, (List.range h).map fun i => windowOf lo hi (f i)⟩) :
    (d.toMatrix ⟨lo, w⟩).Shaped h w ∧ ∀ i < h, ∀ k, (d.toMatrix ⟨lo, w⟩).entry i k = f i k := by
  have hlen : ∀ r ∈ (List.range h).map fun i => windowOf lo hi (f i), lo + r.length ≤ w := by
    intro r hr
    obtain ⟨i, -, rfl⟩ := mem_map.1 hr
    simp only [windowOf, length_map, length_range]
    omega
  obtain ⟨hs, he⟩ := toMatrix_spec width (w := ⟨lo, w⟩) hlen
  rw [hd]
  refine ⟨by simpa using hs, fun i hi k => ?_⟩
  rw [he, getElem?_map, getElem?_range hi]
  exact getElem?_windowOf (hf i) k

/-- The dense copy of a matrix lists its entries. -/
theorem Shaped.denseRows_eq (hm : m.Shaped h w) (hw : m.Within lo hi) :
    m.denseRows lo hi =
      ⟨hi + 1 - lo, (List.range h).map fun i => windowOf lo hi (m.entry i)⟩ := by
  refine congrArg (Dense.mk _) (ext_getElem (by simp [hm.length_rows]) fun i hi' _ => ?_)
  rw [length_map, hm.length_rows] at hi'
  rw [getElem_map, getElem_map, getElem_range, (List.getElem?_eq_some_iff.1 (hm.getElem?_rows hi')).2]
  refine map_congr_left fun c _ => ?_
  have hsize : (Scattered.none (hi + 1 - lo) : Scattered α).cells.size = hi + 1 - lo := by
    simp [Scattered.none]
  obtain ⟨-, -, hget, -⟩ := Scattered.putRow_spec (Scattered.valid_none (hi + 1 - lo))
    (r := (m.row i).map fun e => (e.1 - lo, e.2)) (by
      intro e he
      obtain ⟨f, hf, rfl⟩ := mem_map.1 he
      have := hw.row i f hf
      omega)
  have hshift : rowEntry ((m.row i).map fun e => (e.1 - lo, e.2)) c = m.entry i (c + lo) := by
    simp only [entry_eq, rowEntry, map_map]
    refine congrArg List.sum (map_congr_left fun e he => ?_)
    have := (hw.row i e he).1
    have hiff : e.1 - lo = c ↔ e.1 = c + lo := by omega
    simp [hiff]
  have := hget c
  rw [Scattered.get_none, zero_add, hshift] at this
  exact this

theorem Shaped.length_denseRows (hm : m.Shaped h w) (lo hi : ℕ) :
    (m.denseRows lo hi).rows.length = h := by
  rw [denseRows, length_map, hm.length_rows]

theorem Shaped.denseRows_ne_nil (hm : m.Shaped h w) (lo hi : ℕ) (hpos : 0 < h) :
    (m.denseRows lo hi).rows ≠ [] :=
  ne_nil_of_length_pos (by rwa [hm.length_denseRows])

theorem Shaped.rowFor_denseRows (hm : m.Shaped h w) (hw : m.Within lo hi) {i : ℕ}
    (hi' : h = 1 ∨ i < h) : rowFor (m.denseRows lo hi).rows i = windowOf lo hi (m.spread i) := by
  have hlt : (if h = 1 then 0 else i) < h := by split <;> omega
  have hspread : m.spread i = m.entry (if h = 1 then 0 else i) := by
    funext k
    rw [spread, hm.height_eq]
  rw [hm.denseRows_eq hw, rowFor, hspread]
  simp [hlt]

/-- What is read back from the paired rows of two dense copies. -/
theorem Shaped.toMatrix_paired (hm : m.Shaped h w) (hn : n.Shaped h' w) (hmw : m.Within lo hi)
    (hnw : n.Within lo hi) (hle : lo ≤ hi) (hlt : hi < w) (hpos : 0 < h ∧ 0 < h')
    (hh : h = h' ∨ h = 1 ∨ h' = 1) (width : ℕ) {g : List α → List α → List α} {f : ℕ → ℕ → α}
    (hf : ∀ i, Vanishes lo hi (f i))
    (hg : ∀ i, g (windowOf lo hi (m.spread i)) (windowOf lo hi (n.spread i)) = windowOf lo hi (f i))
    {d : Dense α} (hd : d = ⟨width,
      (paired (m.denseRows lo hi).rows (n.denseRows lo hi).rows).map fun p => g p.1 p.2⟩) :
    (d.toMatrix ⟨lo, w⟩).Shaped (max h h') w ∧
      ∀ i < max h h', ∀ k, (d.toMatrix ⟨lo, w⟩).entry i k = f i k := by
  refine toMatrix_windows width (max h h') hlt hf hle (hd.trans (congrArg (Dense.mk width) ?_))
  rw [paired, map_map, hm.length_denseRows, hn.length_denseRows]
  refine map_congr_left fun i hi => ?_
  have hi := mem_range.1 hi
  rw [Function.comp_apply, hm.rowFor_denseRows hmw (by omega), hn.rowFor_denseRows hnw (by omega)]
  exact hg i

theorem zip_mapM_mul (r s : List α) :
    ((r.zip s).mapM fun (x, y) => Scalar.mul? x y) = .ok (List.zipWith (· * ·) r s) := by
  refine (except_mapM_eq fun p _ => Scalar.mul?_eq p.1 p.2).trans ?_
  rw [map_zip_eq_zipWith]
  rfl

omit [ExactScalar α] in
theorem zipWith_windowOf (op : α → α → α) (lo hi : ℕ) (f g : ℕ → α) :
    List.zipWith op (windowOf lo hi f) (windowOf lo hi g) = windowOf lo hi fun k => op (f k) (g k) := by
  simp [windowOf]

/-- Dense copies are multiplied pair by pair. -/
theorem multiply_ok {d e : Dense α} (hd : d.rows ≠ []) (he : e.rows ≠ [])
    (hh : d.rows.length = e.rows.length ∨ d.rows.length = 1 ∨ e.rows.length = 1) :
    d.multiply e =
      .ok ⟨d.width, (paired d.rows e.rows).map fun p => List.zipWith (· * ·) p.1 p.2⟩ := by
  unfold Dense.multiply
  simp only [zip_mapM_mul, except_mapM]
  rcases paired_cases hd he hh with ⟨heq, hp⟩ | ⟨r, hr, hne, hp⟩ | ⟨r, r', rs, s, hr, hs, hp⟩
  · simp [heq, hp]
  · simp [hr ▸ hp, hr, hne]
  · rw [hp, hr, hs]
    simp

/-- A copy is made or too large, unless sizes cannot be compared. -/
theorem DenseLimit.copy_cases {γ : Type} (limit : DenseLimit α) (sparse dense : ℤ) (x : γ)
    (v : Window) {c : Except Error (DenseCopy γ)}
    (hc : c = do
      if ← limit.allows sparse dense then return .made x v else return .tooLarge sparse dense) :
    (c = .error .illTyped ∧ limit = .undefined) ∨ c = .ok (.tooLarge sparse dense) ∨
      c = .ok (.made x v) := by
  subst hc
  cases hlim : limit.allows sparse dense with
  | error e =>
    cases limit with
    | whole | real => cases hlim
    | undefined =>
      cases hlim
      exact .inl ⟨rfl, rfl⟩
  | ok b =>
    cases b with
    | false => exact .inr (.inl rfl)
    | true => exact .inr (.inr rfl)

/-- Two matrices are copied over a window that holds both, if possible. -/
theorem denseCopies_cases (hm : m.Shaped h w) (hn : n.Shaped h' w) (limit : DenseLimit α) :
    (m.denseCopies limit n = .error .illTyped ∧ limit = .undefined) ∨
    (∃ c, m.denseCopies limit n = .ok c ∧ ∀ x w', c ≠ .made x w') ∨
    ∃ lo hi, m.denseCopies limit n = .ok (.made (m.denseRows lo hi, n.denseRows lo hi) ⟨lo, w⟩) ∧
      lo ≤ hi ∧ hi < w ∧ m.Within lo hi ∧ n.Within lo hi ∧ 0 < h ∧ 0 < h' := by
  unfold denseCopies
  rw [if_neg (by rw [hm.width_eq, hn.width_eq]; simp), hm.width_eq]
  split
  next lo1 lo2 hi1 hi2 hlo1 hlo2 hhi1 hhi2 =>
    rcases DenseLimit.copy_cases limit _ _ _ _ rfl with he | hc | hc
    · exact .inl he
    · exact .inr (.inl ⟨_, hc, fun x w' => by simp⟩)
    · refine .inr (.inr ⟨min lo1 lo2, max hi1 hi2, hc, ?_, ?_, ?_, ?_, hm.height_pos hlo1,
        hn.height_pos hlo2⟩)
      · have := (max?_eq_some_iff.1 hhi1).2 _ (min?_eq_some_iff.1 hlo1).1
        omega
      · have := hm.max_lt hhi1
        have := hn.max_lt hhi2
        omega
      · exact (within_of_columns hlo1 hhi1).mono (min_le_left _ _) (le_max_left _ _)
      · exact (within_of_columns hlo2 hhi2).mono (min_le_right _ _) (le_max_right _ _)
  next => exact .inr (.inl ⟨.nothingStored, rfl, fun x w' => by simp⟩)

/-- A matrix is copied over a window that holds it, if possible. -/
theorem denseCopy_cases (hm : m.Shaped h w) (limit : DenseLimit α) :
    (m.denseCopy limit = .error .nothingStored ∧ m.columns = []) ∨
    (m.denseCopy limit = .error .illTyped ∧ limit = .undefined) ∨
    (∃ sparse dense, m.denseCopy limit = .ok (.tooLarge sparse dense)) ∨
    ∃ lo hi, m.denseCopy limit = .ok (.made (m.denseRows lo hi) ⟨lo, w⟩) ∧ lo ≤ hi ∧ hi < w ∧
      m.Within lo hi := by
  unfold denseCopy
  rw [hm.width_eq]
  split
  next lo hi hlo hhi =>
    rcases DenseLimit.copy_cases limit _ _ _ _ rfl with he | hc | hc
    · exact .inr (.inl he)
    · exact .inr (.inr (.inl ⟨_, _, hc⟩))
    · exact .inr (.inr (.inr ⟨lo, hi, hc, (max?_eq_some_iff.1 hhi).2 _ (min?_eq_some_iff.1 hlo).1,
        hm.max_lt hhi, within_of_columns hlo hhi⟩))
  next hnone =>
    refine .inl ⟨rfl, ?_⟩
    by_contra hne
    obtain ⟨lo, hlo⟩ := Option.ne_none_iff_exists'.1 (mt min?_eq_none_iff.1 hne)
    obtain ⟨hi, hhi⟩ := Option.ne_none_iff_exists'.1 (mt max?_eq_none_iff.1 hne)
    exact hnone lo hi hlo hhi

theorem Shaped.replicate (hv : v.Shaped 1 w) (h : ℕ) :
    ∃ p, v.replicate h = .ok p ∧ p.Shaped h w ∧ ∀ i < h, ∀ k, p.entry i k = v.entry 0 k := by
  have hrow (i : ℕ) : (⟨v.width, Array.replicate h (v.row 0)⟩ : Matrix α).row i =
      if i < h then v.row 0 else [] := by
    simp only [row, Array.getElem?_replicate]
    split <;> rfl
  refine ⟨⟨v.width, Array.replicate h (v.row 0)⟩, ?_, ⟨by simp [height], hv.width_eq, fun i => ?_⟩,
    fun i hi k => ?_⟩
  · rw [Matrix.replicate, if_neg (not_not.2 hv.height_eq), if_neg (by omega), Int.toNat_natCast]
  · rw [hrow]
    split
    · exact hv.bounded 0
    · exact rowBounded_nil w
  · rw [entry_eq, entry_eq, hrow, if_pos hi]

/-- The elementwise product with a row is that with the row repeated. -/
theorem Shaped.multiplyRow (hm : m.Shaped h w) (hv : v.Shaped 1 w) (limit : DenseLimit α) :
    (limit = .undefined ∧ m.multiplyRow limit v = .error .illTyped) ∨
    ∃ p, m.multiplyRow limit v = .ok p ∧ p.Shaped h w ∧
      ∀ i k, p.entry i k = m.entry i k * v.entry 0 k := by
  rcases denseCopies_cases hm hv limit with
    ⟨he, hu⟩ | ⟨c, hc, hne⟩ | ⟨lo, hi, hc, hle, hlt, hmw, hvw, hpos⟩
  · refine .inl ⟨hu, ?_⟩
    simp [Matrix.multiplyRow, he]
  · right
    obtain ⟨q, hq, hqs, hqe⟩ := hv.replicate h
    obtain ⟨p, hp, hps, hpe⟩ := hm.hadamard hqs
    refine ⟨p, ?_, hps, fun i k => ?_⟩
    · unfold Matrix.multiplyRow
      rw [hc]
      cases c with
      | made x w' => exact absurd rfl (hne x w')
      | tooLarge a b => simp [hm.height_eq, hq, hp]
      | nothingStored => simp [hm.height_eq, hq, hp]
    · by_cases hih : i < h
      · rw [hpe, hqe i hih]
      · rw [hps.entry_of_height_le (not_lt.1 hih), hm.entry_of_height_le (not_lt.1 hih), zero_mul]
  · right
    have hh : h = 1 ∨ h = 1 ∨ 1 = 1 := .inr (.inr rfl)
    have hmul := multiply_ok (hm.denseRows_ne_nil lo hi hpos.1) (hv.denseRows_ne_nil lo hi hpos.2)
      (by rwa [hm.length_denseRows, hv.length_denseRows])
    have hvan (i : ℕ) : Vanishes lo hi fun k => m.spread i k * v.spread i k :=
      fun k hk => by simp [spread, hmw.vanishes _ k hk]
    obtain ⟨hs, he⟩ := hm.toMatrix_paired hv hmw hvw hle hlt hpos hh _ hvan
      (fun i => zipWith_windowOf _ lo hi _ _) rfl
    rw [max_eq_left hpos.1] at hs he
    refine ⟨_, ?_, hs, fun i k => ?_⟩
    · rw [Matrix.multiplyRow, hc]
      exact then_ok.2 ⟨_, rfl, then_ok.2 ⟨_, hmul, rfl⟩⟩
    · by_cases hih : i < h
      · rw [he i hih, hm.spread_of_lt hih, hv.spread_single]
      · rw [hs.entry_of_height_le (not_lt.1 hih), hm.entry_of_height_le (not_lt.1 hih), zero_mul]

/-- The row on the right may stand for all rows. -/
theorem Shaped.broadcastMultiply (hm : m.Shaped h w) (hn : n.Shaped h' w) (hh : h' = h ∨ h' = 1)
    (limit : DenseLimit α) :
    (h' ≠ h ∧ limit = .undefined ∧ m.broadcastMultiply limit n = .error .illTyped) ∨
    ∃ p, m.broadcastMultiply limit n = .ok p ∧ p.Shaped h w ∧
      ∀ i k, p.entry i k = m.entry i k * n.spread i k := by
  by_cases heq : h' = h
  · subst heq
    obtain ⟨p, hp, hps, hpe⟩ := hm.hadamard hn
    refine .inr ⟨p, ?_, hps, fun i k => ?_⟩
    · simp [Matrix.broadcastMultiply, needBroadcast, hm.height_eq, hn.height_eq, hp]
    · rw [hpe, spread]
      split
      · next hone =>
        cases i with
        | zero => rfl
        | succ i =>
          rw [hn.height_eq] at hone
          rw [hm.entry_of_height_le (by omega), zero_mul, zero_mul]
      · rfl
  · obtain rfl : h' = 1 := hh.resolve_left heq
    have hb : m.broadcastMultiply limit n = m.multiplyRow limit n := by
      simp [Matrix.broadcastMultiply, needBroadcast, hm.height_eq, hn.height_eq, Ne.symm heq]
    rw [hb]
    rcases hm.multiplyRow hn limit with ⟨hu, he⟩ | ⟨p, hp, hps, hpe⟩
    · exact .inl ⟨heq, hu, he⟩
    · refine .inr ⟨p, hp, hps, fun i k => ?_⟩
      rw [hpe, hn.spread_single]

/-- A row multiplied by the sum of another. -/
def weighedRow (p : Row α × Row α) : Row α := p.1.map fun e => (e.1, e.2 * (p.2.map (·.2)).sum)

theorem rowEntry_weighedRow (r : Row α) {s : Row α} (hs : RowBounded w s) (k : ℕ) :
    rowEntry (weighedRow (r, s)) k = rowEntry r k * ∑ j ∈ Finset.range w, rowEntry s j := by
  simp only [weighedRow, sum_values_eq hs]
  rw [mul_comm, ← rowEntry_map_times]
  simp [mul_comm]

/-- A matrix whose rows are weighed by the rows of another. -/
theorem Shaped.weighed {p : Matrix α} (hm : m.Shaped h w) (hn : n.Shaped h' w)
    (hheight : p.height = max h h') (hpw : p.width = w)
    (hrow : ∀ i < max h h', p.row i =
      weighedRow (m.row (if h = 1 then 0 else i), n.row (if h' = 1 then 0 else i))) :
    p.Shaped (max h h') w ∧ ∀ i < max h h', ∀ k,
      p.entry i k = m.spread i k * ∑ j ∈ Finset.range w, n.spread i j := by
  refine ⟨⟨hheight, hpw, fun i => ?_⟩, fun i hi k => ?_⟩
  · by_cases hi : i < max h h'
    · rw [hrow i hi]
      intro e he
      obtain ⟨f, hf, rfl⟩ := mem_map.1 he
      exact hm.bounded _ f hf
    · have : p.rows[i]? = none := Array.getElem?_eq_none (hheight.le.trans (not_lt.1 hi))
      rw [row, this]
      exact rowBounded_nil w
  · rw [entry_eq, hrow i hi, rowEntry_weighedRow _ (hn.bounded _)]
    simp [spread, hm.height_eq, hn.height_eq, entry_eq]

theorem weighRow_eq (r s : Row α) : weighRow r s = pure (weighedRow (r, s)) := by
  simp only [weighRow, Scalar.sum?_eq]
  exact mapM_pure

theorem Shaped.weightByRowSum (hm : m.Shaped h w) (hn : n.Shaped h' w)
    (hh : h = h' ∨ h = 1 ∨ h' = 1) (hpos : 0 < h ∧ 0 < h') :
    ∃ p, m.weightByRowSum n = .ok p ∧ p.Shaped (max h h') w ∧ ∀ i < max h h', ∀ k,
      p.entry i k = m.spread i k * ∑ j ∈ Finset.range w, n.spread i j := by
  unfold Matrix.weightByRowSum
  simp only [weighRow_eq]
  by_cases hone : h' = 1
  · subst hone
    have htotal : n.total = .ok (∑ j ∈ Finset.range w, n.entry 0 j) := by
      simp [Matrix.total, hn.toList_rows, sum_values_eq (hn.bounded 0), entry_eq]
    obtain ⟨p, hp, hps, hpe⟩ := hm.scale (∑ j ∈ Finset.range w, n.entry 0 j)
    rw [if_pos hn.height_eq, htotal, max_eq_left hpos.1]
    refine ⟨p, hp, hps, fun i hi k => ?_⟩
    rw [hpe, hm.spread_of_lt hi]
    simp only [hn.spread_single]
  · rw [if_neg (by rw [hn.height_eq]; exact hone)]
    have hsize : n.rows.size = h' := hn.height_eq
    by_cases hone' : h = 1
    · subst hone'
      rw [if_pos ⟨hm.height_eq, by rw [hn.height_eq]; omega⟩]
      have hmax : max 1 h' = h' := max_eq_right hpos.2
      refine ⟨⟨m.width, n.rows.map fun s => weighedRow (m.row 0, s)⟩, ?_, hm.weighed hn ?_ hm.width_eq
        fun i hi => ?_⟩
      · rw [funext (weighRow_eq (m.row 0)), Array.mapM_pure]
        rfl
      · simp [height, hsize, hmax]
      · have hi : i < n.rows.size := by omega
        simp [row, hone, hi]
    · obtain rfl : h = h' := by omega
      have hsize' : m.rows.size = h := hm.height_eq
      rw [if_neg (by rw [hm.height_eq]; omega), if_pos (hm.height_eq.trans hn.height_eq.symm)]
      refine ⟨⟨m.width, (m.rows.zip n.rows).map weighedRow⟩, ?_, hm.weighed hn ?_ hm.width_eq
        fun i hi => ?_⟩
      · rw [Array.mapM_pure]
        rfl
      · simp [height, hsize, hsize']
      · have hi : i < m.rows.size ∧ i < n.rows.size := by omega
        simp [row, hone, hi]

theorem map_windowOf (lo hi : ℕ) (f : ℕ → α) (c : α) :
    (windowOf lo hi f).map (· * c) = windowOf lo hi fun k => f k * c := by
  simp [windowOf]

/-- The rows of a dense copy are weighted pair by pair. -/
theorem weightByRowSum_ok {d e : Dense α} (hd : d.rows ≠ []) (he : e.rows ≠ [])
    (hh : d.rows.length = e.rows.length ∨ d.rows.length = 1 ∨ e.rows.length = 1) :
    d.weightByRowSum e =
      .ok ⟨d.width, (paired d.rows e.rows).map fun p => p.1.map (· * p.2.sum)⟩ := by
  have hsums (xs : List (List α)) : xs.mapM Scalar.sum? = .ok (xs.map List.sum) :=
    except_mapM_eq fun x _ => Scalar.sum?_eq x
  unfold Dense.weightByRowSum
  simp only [hsums, Scalar.mul?_eq, except_mapM, ok_bind, length_map]
  rcases paired_cases hd he hh with ⟨heq, hp⟩ | ⟨r, hr, hne, hp⟩ | ⟨r, r', rs, s, hr, hs, hp⟩
  · simp [heq, hp, zip_map_right]
  · simp [hr ▸ hp, hr, hne]
  · rw [hp, hr, hs]
    simp

/-- Each row is weighted by a row sum, where a single row stands for all. -/
theorem Shaped.weighted (hm : m.Shaped h w) (hn : n.Shaped h' w) (hh : h = h' ∨ h = 1 ∨ h' = 1)
    (hpos : 0 < h ∧ 0 < h') (dense : Bool) (limit : DenseLimit α) :
    (dense = true ∧ limit = .undefined ∧ m.weighted dense limit n = .error .illTyped) ∨
    ∃ p, m.weighted dense limit n = .ok p ∧ p.Shaped (max h h') w ∧ ∀ i < max h h', ∀ k,
      p.entry i k = m.spread i k * ∑ j ∈ Finset.range w, n.spread i j := by
  obtain ⟨q, hq, hspec⟩ := hm.weightByRowSum hn hh hpos
  cases dense with
  | false => exact .inr ⟨q, hq, hspec⟩
  | true =>
    rcases denseCopies_cases hm hn limit with
      ⟨he, hu⟩ | ⟨c, hc, hne⟩ | ⟨lo, hi, hc, hle, hlt, hmw, hnw, hpos⟩
    · refine .inl ⟨rfl, hu, ?_⟩
      simp [Matrix.weighted, he]
    · refine .inr ⟨q, ?_, hspec⟩
      cases c with
      | made x w' => exact absurd rfl (hne x w')
      | tooLarge a b => simp [Matrix.weighted, hc, hq]
      | nothingStored => simp [Matrix.weighted, hc, hq]
    · right
      have hweight := weightByRowSum_ok (hm.denseRows_ne_nil lo hi hpos.1)
        (hn.denseRows_ne_nil lo hi hpos.2) (by rwa [hm.length_denseRows, hn.length_denseRows])
      have hvan (i : ℕ) : Vanishes lo hi fun k => m.spread i k * (windowOf lo hi (n.spread i)).sum :=
        fun k hk => by simp [spread, hmw.vanishes _ k hk]
      obtain ⟨hs, he⟩ := hm.toMatrix_paired hn hmw hnw hle hlt hpos hh _
        (g := fun r s => r.map (· * s.sum)) hvan (fun i => map_windowOf lo hi _ _) rfl
      refine ⟨_, ?_, hs, fun i hi' k => ?_⟩
      · rw [Matrix.weighted, if_pos rfl, hc]
        exact then_ok.2 ⟨_, rfl, then_ok.2 ⟨_, hweight, rfl⟩⟩
      · have hvan' : Vanishes lo hi (n.spread i) := hnw.vanishes _
        rw [he i hi', sum_windowOf hvan' hlt]

end BeliefLogic.Matrix
