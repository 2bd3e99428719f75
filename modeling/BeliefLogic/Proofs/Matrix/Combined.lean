import BeliefLogic.Proofs.Matrix.Entries

/-!
# Matrices combined entry by entry

Merging sorted rows and scattering others both give each combined column once and no zeros.
-/

namespace BeliefLogic.Matrix

open List

variable {α : Type} {r s t : Row α} {h j w : ℕ} {m n : Matrix α} {op : α → α → α} {x : α}
  {e : ℕ × α} {js : List ℕ}

abbrev Increasing (r : Row α) : Prop := r.Pairwise fun a b => a.1 < b.1

theorem increasing_of_sortedRow (h : sortedRow r = true) : Increasing r := by
  refine isChain_iff_pairwise.1 ?_
  fun_induction sortedRow r with
  | case1 j x k y rest ih =>
    simp only [Bool.and_eq_true, decide_eq_true_eq] at h
    exact isChain_cons_cons.2 ⟨h.1, ih h.2⟩
  | case2 r hr =>
    match r with
    | [] => simp
    | [e] => simp
    | e :: f :: rest => exact absurd rfl (hr e.1 e.2 f.1 f.2 rest)

theorem increasing_nodup (h : Increasing r) : (r.map (·.1)).Nodup :=
  pairwise_map.2 (h.imp fun hlt => hlt.ne)

theorem increasing_of_isSorted (h : m.isSorted = true) (i : ℕ) : Increasing (m.row i) := by
  rcases hi : m.rows[i]? with _ | r
  · simp [row, hi]
  · have hr : r ∈ m.rows := Array.mem_of_getElem? hi
    simp only [row, hi]
    exact increasing_of_sortedRow (Array.all_eq_true_iff_forall_mem.1 h r hr)

theorem row_zip (m n : Matrix α) (f : Row α → Row α → Row α) (hf : f [] [] = [])
    (hh : m.height = n.height) (w i : ℕ) :
    (⟨w, (m.rows.zip n.rows).map fun p => f p.1 p.2⟩ : Matrix α).row i =
      f (m.row i) (n.row i) := by
  have hh : m.rows.size = n.rows.size := hh
  simp only [row]
  by_cases hi : i < m.rows.size
  · have hi' : i < n.rows.size := hh ▸ hi
    simp [hi, hi']
  · have hi' : n.rows.size ≤ i := hh ▸ not_lt.1 hi
    simp [not_lt.1 hi, hi', hf]

theorem mapM_ok {f : α → Except Error α} {g : α → α} (h : ∀ x, f x = .ok (g x)) (m : Matrix α) :
    m.mapM f = .ok (m.map g) := by
  obtain rfl : f = fun x => pure (g x) := funext h
  simp only [mapM, pure_bind, mapM_pure, Array.mapM_pure]
  rfl

theorem row_mapValues (f : α → α) (m : Matrix α) (i : ℕ) :
    (m.map f).row i = (m.row i).map fun e => (e.1, f e.2) :=
  row_map m (fun r => r.map fun e : ℕ × α => (e.1, f e.2)) rfl m.width i

theorem Shaped.map (hm : m.Shaped h w) (f : α → α) : (m.map f).Shaped h w where
  height_eq := by simpa [height, Matrix.map, mapRows] using hm.height_eq
  width_eq := hm.width_eq
  bounded i e he := by
    rw [row_mapValues] at he
    obtain ⟨e', he', rfl⟩ := mem_map.1 he
    exact hm.bounded i e' he'

theorem shaped_empty (h w : ℕ) : (Matrix.empty h w : Matrix α).Shaped h w where
  height_eq := by simp [height, Matrix.empty]
  width_eq := rfl
  bounded i := by
    simp only [row, Matrix.empty, Array.getElem?_replicate]
    split <;> exact rowBounded_nil w

theorem shaped_singleRow (h : RowBounded w r) :
    (⟨w, #[r]⟩ : Matrix α).Shaped 1 w where
  height_eq := rfl
  width_eq := rfl
  bounded i := by
    match i with
    | 0 => exact h
    | i + 1 => exact rowBounded_nil w

variable [ExactScalar α]

/-- A row in which each column is stored at most once, and no zero is. -/
structure Reduced (r : Row α) : Prop where
  nodup : (r.map (·.1)).Nodup
  nonzero : ∀ e ∈ r, e.2 ≠ 0

/-- A reduced row that combines two rows and stores no new column. -/
structure Combines (op : α → α → α) (r s t : Row α) : Prop where
  entry : ∀ k, rowEntry t k = op (rowEntry r k) (rowEntry s k)
  reduced : Reduced t
  columns : ∀ e ∈ t, (∃ f ∈ r, f.1 = e.1) ∨ ∃ f ∈ s, f.1 = e.1

theorem Combines.bounded (h : Combines op r s t) (hr : RowBounded w r) (hs : RowBounded w s) :
    RowBounded w t := by
  intro e he
  obtain ⟨f, hf, heq⟩ | ⟨f, hf, heq⟩ := h.columns e he
  · exact heq ▸ hr f hf
  · exact heq ▸ hs f hf

theorem rowEntry_consKept (j : ℕ) (x : α) (t : Row α) (k : ℕ) :
    rowEntry (mergeRows.consKept j x t) k = (if j = k then x else 0) + rowEntry t k := by
  by_cases h : x = 0 <;> simp [mergeRows.consKept, h]

theorem Reduced.consKept (h : Reduced t) (hj : ∀ e ∈ t, j < e.1) (x : α) :
    Reduced (mergeRows.consKept j x t) := by
  unfold mergeRows.consKept
  split
  · exact h
  · next hx =>
    refine ⟨?_, ?_⟩
    · simp only [map_cons, nodup_cons, mem_map, not_exists, not_and]
      exact ⟨fun e he heq => (hj e he).ne' heq, h.nodup⟩
    · intro e he
      rcases mem_cons.1 he with rfl | he
      · simpa using hx
      · exact h.nonzero e he

theorem mem_consKept (he : e ∈ mergeRows.consKept j x t) : e.1 = j ∨ e ∈ t := by
  unfold mergeRows.consKept at he
  split at he
  · exact .inr he
  · rcases mem_cons.1 he with rfl | he
    · exact .inl rfl
    · exact .inr he

theorem rowEntry_of_lt (h : ∀ e ∈ r, j < e.1) : rowEntry r j = 0 :=
  rowEntry_eq_zero fun e he => (h e he).ne'

theorem keep_of_eq_zero (j : ℕ) (h : x = 0) : mergeRows.keep j x = none := by
  simp [mergeRows.keep, h]

theorem keep_of_ne_zero (j : ℕ) (h : x ≠ 0) : mergeRows.keep j x = some (j, x) := by
  simp [mergeRows.keep, h]

/-- Keeping the nonzero values of a function at distinct columns. -/
theorem rowEntry_filterMap_keep (hjs : js.Nodup) (f : ℕ → α) (k : ℕ) :
    rowEntry (js.filterMap fun j => mergeRows.keep j (f j)) k = if k ∈ js then f k else 0 := by
  induction js with
  | nil => rfl
  | cons j js ih =>
    obtain ⟨hj, hjs⟩ := nodup_cons.1 hjs
    have ih := ih hjs
    by_cases hf : f j = 0
    · simp only [filterMap_cons, keep_of_eq_zero j hf, ih]
      by_cases hk : k = j <;> simp [hk, hf]
    · simp only [filterMap_cons, keep_of_ne_zero j hf, rowEntry_cons, ih]
      by_cases hk : k = j
      · simp [hk, hj]
      · simp [hk, Ne.symm hk]

theorem mem_filterMap_keep {f : ℕ → α} (he : e ∈ js.filterMap fun j => mergeRows.keep j (f j)) :
    e.1 ∈ js ∧ e.2 ≠ 0 := by
  obtain ⟨j, hj, hk⟩ := mem_filterMap.1 he
  unfold mergeRows.keep at hk
  split at hk
  · cases hk
  · next hf =>
    cases hk
    exact ⟨hj, by simpa using hf⟩

theorem reduced_filterMap_keep (hjs : js.Nodup) (f : ℕ → α) :
    Reduced (js.filterMap fun j => mergeRows.keep j (f j)) := by
  refine ⟨?_, fun e he => (mem_filterMap_keep he).2⟩
  have hsub : ((js.filterMap fun j => mergeRows.keep j (f j)).map (·.1)).Sublist js := by
    induction js with
    | nil => simp
    | cons j js ih =>
      have ih := ih (nodup_cons.1 hjs).2
      by_cases hf : f j = 0
      · simpa [mergeRows.keep, hf] using ih.cons j
      · simpa [mergeRows.keep, hf] using ih
  exact hsub.nodup hjs

theorem rowEntry_of_mem (h : (r.map (·.1)).Nodup) (he : e ∈ r) : rowEntry r e.1 = e.2 := by
  induction r with
  | nil => simp at he
  | cons f r ih =>
    simp only [map_cons, nodup_cons, mem_map, not_exists, not_and] at h
    rcases mem_cons.1 he with rfl | he
    · simp [rowEntry_eq_zero h.1]
    · have : f.1 ≠ e.1 := fun heq => h.1 e he heq.symm
      simp [this, ih h.2 he]

theorem filterMap_keep_entry (h : (r.map (·.1)).Nodup) (f : α → α) :
    (r.filterMap fun e => mergeRows.keep e.1 (f e.2)) =
      (r.map (·.1)).filterMap fun j => mergeRows.keep j (f (rowEntry r j)) := by
  rw [filterMap_map]
  refine filterMap_congr fun e he => ?_
  simp [rowEntry_of_mem h he]

theorem combines_left (op : α → α → α) (hop : op 0 0 = 0) (hr : Increasing r) :
    Combines op r [] (r.filterMap fun e => mergeRows.keep e.1 (op e.2 0)) := by
  rw [filterMap_keep_entry (increasing_nodup hr) fun x => op x 0]
  refine ⟨fun k => ?_, reduced_filterMap_keep (increasing_nodup hr) _, fun e he => ?_⟩
  · rw [rowEntry_filterMap_keep (increasing_nodup hr) fun j => op (rowEntry r j) 0]
    split
    · rfl
    · next hk =>
      have : rowEntry r k = 0 :=
        rowEntry_eq_zero fun e he heq => hk (mem_map.2 ⟨e, he, heq⟩)
      rw [this, rowEntry_nil, hop]
  · obtain ⟨f, hf, heq⟩ := mem_map.1 (mem_filterMap_keep he).1
    exact .inl ⟨f, hf, heq⟩

theorem combines_right (hop : op 0 0 = 0) (hs : Increasing s) :
    Combines op [] s (s.filterMap fun e => mergeRows.keep e.1 (op 0 e.2)) := by
  obtain ⟨h, h', h''⟩ := combines_left (fun x y => op y x) hop hs
  exact ⟨h, h', fun e he => (h'' e he).symm⟩

/-- Putting the combined value of the least column in front. -/
theorem Combines.consKept {r' s' : Row α} {y : α} (h : Combines op r s t) (hop : op 0 0 = 0)
    (hr : ∀ e ∈ r, j < e.1) (hs : ∀ e ∈ s, j < e.1)
    (hr' : ∀ k, rowEntry r' k = (if j = k then x else 0) + rowEntry r k)
    (hs' : ∀ k, rowEntry s' k = (if j = k then y else 0) + rowEntry s k)
    (hc : ∀ i, (i = j ∨ (∃ f ∈ r, f.1 = i) ∨ ∃ f ∈ s, f.1 = i) →
      (∃ f ∈ r', f.1 = i) ∨ ∃ f ∈ s', f.1 = i) :
    Combines op r' s' (mergeRows.consKept j (op x y) t) := by
  have ht : ∀ e ∈ t, j < e.1 := by
    intro e he
    obtain ⟨f, hf, heq⟩ | ⟨f, hf, heq⟩ := h.columns e he
    · exact heq ▸ hr f hf
    · exact heq ▸ hs f hf
  refine ⟨fun k => ?_, h.reduced.consKept ht _, fun e he => ?_⟩
  · rw [rowEntry_consKept, hr', hs', h.entry]
    by_cases hk : j = k
    · subst hk
      simp [rowEntry_of_lt hr, rowEntry_of_lt hs, hop]
    · simp [hk]
  · rcases mem_consKept he with heq | he
    · exact hc _ (.inl heq)
    · exact hc _ (.inr (h.columns e he))

/-- Combining increasing rows by merging them. -/
theorem combines_mergeRows (hop : op 0 0 = 0) (r s : Row α) (hr : Increasing r) (hs : Increasing s)
    : Combines op r s (mergeRows op r s) := by
  fun_induction mergeRows op r s with
  | case1 s => exact combines_right hop hs
  | case2 j x r => exact combines_left op hop hr
  | case3 j x r y s ih =>
    obtain ⟨hj, hr⟩ := pairwise_cons.1 hr
    obtain ⟨hj', hs⟩ := pairwise_cons.1 hs
    refine (ih hr hs).consKept hop hj hj' (fun k => rowEntry_cons _ _ _)
      (fun k => rowEntry_cons _ _ _) fun i hi => ?_
    rcases hi with rfl | ⟨f, hf, rfl⟩ | ⟨f, hf, rfl⟩
    · exact .inl ⟨_, mem_cons_self, rfl⟩
    · exact .inl ⟨f, mem_cons_of_mem _ hf, rfl⟩
    · exact .inr ⟨f, mem_cons_of_mem _ hf, rfl⟩
  | case4 j x r k y s hne hlt ih =>
    obtain ⟨hj, hr⟩ := pairwise_cons.1 hr
    have hs' : ∀ e ∈ (k, y) :: s, j < e.1 := by
      intro e he
      rcases mem_cons.1 he with rfl | he
      · exact hlt
      · exact hlt.trans ((pairwise_cons.1 hs).1 e he)
    refine (ih hr hs).consKept hop hj hs' (fun k => rowEntry_cons _ _ _)
      (fun k => by simp) fun i hi => ?_
    rcases hi with rfl | ⟨f, hf, rfl⟩ | hi
    · exact .inl ⟨_, mem_cons_self, rfl⟩
    · exact .inl ⟨f, mem_cons_of_mem _ hf, rfl⟩
    · exact .inr hi
  | case5 j x r k y s hne hge ih =>
    obtain ⟨hk, hs⟩ := pairwise_cons.1 hs
    have hkj : k < j := by omega
    have hr' : ∀ e ∈ (j, x) :: r, k < e.1 := by
      intro e he
      rcases mem_cons.1 he with rfl | he
      · exact hkj
      · exact hkj.trans ((pairwise_cons.1 hr).1 e he)
    refine (ih hr hs).consKept hop hr' hk (fun k => by simp)
      (fun k => rowEntry_cons _ _ _) fun i hi => ?_
    rcases hi with rfl | hi | ⟨f, hf, rfl⟩
    · exact .inr ⟨_, mem_cons_self, rfl⟩
    · exact .inl hi
    · exact .inr ⟨f, mem_cons_of_mem _ hf, rfl⟩

/-- Combining rows in any order through scattered values. -/
theorem combines_scatterRows (hop : op 0 0 = 0) (hr : RowBounded w r) (hs : RowBounded w s) :
    Combines op r s (scatterRows w op r s) := by
  have hsize : (Scattered.none w : Scattered α).cells.size = w := by simp [Scattered.none]
  have hv := Scattered.valid_none (α := α) w
  obtain ⟨hleft, hsize', hgl, hml⟩ := Scattered.putRow_spec hv (hsize.symm ▸ hr)
  obtain ⟨-, -, hgr, -⟩ := Scattered.putRow_spec hv (hsize.symm ▸ hs)
  obtain ⟨hboth, -, -, hmet⟩ := Scattered.putRow_spec hleft ((hsize'.trans hsize).symm ▸ hs)
  set js := (((Scattered.none w).putRow r).putRow s).met with hjs
  have heq : scatterRows w op r s =
      js.filterMap fun j => mergeRows.keep j (op (rowEntry r j) (rowEntry s j)) := by
    simp only [scatterRows, hgl, hgr, Scattered.get_none, zero_add]
    rfl
  have hmem (k : ℕ) : k ∈ js ↔ (∃ e ∈ r, e.1 = k) ∨ ∃ e ∈ s, e.1 = k := by
    rw [hmet, hml]
    simp [Scattered.none]
  rw [heq]
  refine ⟨fun k => ?_, reduced_filterMap_keep hboth.nodup _, fun e he => ?_⟩
  · rw [rowEntry_filterMap_keep hboth.nodup fun j => op (rowEntry r j) (rowEntry s j)]
    split
    · rfl
    · next hk =>
      rw [hmem, not_or] at hk
      have hr0 : rowEntry r k = 0 := rowEntry_eq_zero fun e he h => hk.1 ⟨e, he, h⟩
      have hs0 : rowEntry s k = 0 := rowEntry_eq_zero fun e he h => hk.2 ⟨e, he, h⟩
      rw [hr0, hs0, hop]
  · exact (hmem e.1).1 (mem_filterMap_keep he).1

/-- Matrices of one shape are combined entry by entry, into reduced rows. -/
theorem Shaped.zipWith (hop : op 0 0 = 0) (hm : m.Shaped h w) (hn : n.Shaped h w) :
    ∃ p, m.zipWith op n = .ok p ∧ p.Shaped h w ∧
      (∀ i j, p.entry i j = op (m.entry i j) (n.entry i j)) ∧ ∀ i, Reduced (p.row i) := by
  have hcond : m.height = n.height ∧ m.width = n.width :=
    ⟨hm.height_eq.trans hn.height_eq.symm, hm.width_eq.trans hn.width_eq.symm⟩
  set combine := if m.isSorted && n.isSorted then mergeRows op else scatterRows m.width op with hc
  have hcombine (i : ℕ) : Combines op (m.row i) (n.row i) (combine (m.row i) (n.row i)) := by
    rw [hc]
    split
    · next hs =>
      rw [Bool.and_eq_true] at hs
      exact combines_mergeRows hop _ _ (increasing_of_isSorted hs.1 i)
        (increasing_of_isSorted hs.2 i)
    · rw [hm.width_eq]
      exact combines_scatterRows hop (hm.bounded i) (hn.bounded i)
  have hnil : combine [] [] = [] := by
    rw [hc]
    split
    · simp [mergeRows]
    · rfl
  have hrow (i : ℕ) := row_zip m n combine hnil hcond.1 m.width i
  refine ⟨⟨m.width, (m.rows.zip n.rows).map fun p => combine p.1 p.2⟩, ?_,
    ⟨?_, hm.width_eq, fun i => ?_⟩, fun i j => ?_, fun i => ?_⟩
  · rw [Matrix.zipWith, if_pos hcond]
  · have : m.rows.size = n.rows.size := hcond.1
    simpa [height, this] using hn.height_eq
  · rw [hrow]
    exact (hcombine i).bounded (hm.bounded i) (hn.bounded i)
  · simp only [entry_eq, hrow]
    exact (hcombine i).entry j
  · rw [hrow]
    exact (hcombine i).reduced

theorem Shaped.add (hm : m.Shaped h w) (hn : n.Shaped h w) :
    ∃ p, m.add n = .ok p ∧ p.Shaped h w ∧ (∀ i j, p.entry i j = m.entry i j + n.entry i j) ∧
      ∀ i, Reduced (p.row i) :=
  hm.zipWith (by simp) hn

/-- Elementwise products exist for matrices of one shape. -/
theorem Shaped.hadamard (hm : m.Shaped h w) (hn : n.Shaped h w) :
    ∃ p, m.hadamard n = .ok p ∧ p.Shaped h w ∧
      ∀ i j, p.entry i j = m.entry i j * n.entry i j := by
  have hzero : Scalar.times (0 : α) 0 = 0 := by simp
  obtain ⟨p, hp, hs, he, -⟩ := hm.zipWith hzero hn
  refine ⟨p, ?_, hs, he⟩
  rw [Matrix.hadamard, if_pos ⟨hm.height_eq.trans hn.height_eq.symm,
    hm.width_eq.trans hn.width_eq.symm⟩]
  exact hp

theorem scale_eq (m : Matrix α) (c : α) : m.scale c = .ok (m.map (· * c)) := by
  simp only [Matrix.scale]
  exact mapM_ok (fun x => Scalar.mul?_eq x c) m

theorem entry_scale (m : Matrix α) (c : α) (i j : ℕ) :
    (m.map (· * c)).entry i j = m.entry i j * c := by
  rw [entry_eq, entry_eq, row_mapValues]
  simp only [mul_comm _ c]
  exact rowEntry_map_times c _ j

theorem Shaped.scale (hm : m.Shaped h w) (c : α) :
    ∃ p, m.scale c = .ok p ∧ p.Shaped h w ∧ ∀ i j, p.entry i j = m.entry i j * c :=
  ⟨_, scale_eq m c, hm.map _, entry_scale m c⟩

@[simp] theorem entry_empty (h w i j : ℕ) : (Matrix.empty h w : Matrix α).entry i j = 0 := by
  simp only [entry_eq, row, Matrix.empty, Array.getElem?_replicate]
  split <;> rfl

theorem unit_spec (hj : j < w) :
    ∃ p, (Matrix.unit w j : Except Error (Matrix α)) = .ok p ∧ p.Shaped 1 w ∧
      ∀ k, p.entry 0 k = if k = j then 1 else 0 := by
  refine ⟨⟨w, #[[(j, 1)]]⟩, ?_, shaped_singleRow ?_, fun k => ?_⟩
  · simp [Matrix.unit, ofEntries, gatherEntries, hj, canonicalRow, sortedRow]
  · simpa [RowBounded] using hj
  · simp [entry_eq, row, eq_comm]

theorem sum_values_eq (h : RowBounded w r) :
    (r.map (·.2)).sum = ∑ j ∈ Finset.range w, rowEntry r j := by
  have := rowDot_eq_sum h fun _ => (1 : α)
  simpa [rowDot] using this

theorem sum_map_range (n : ℕ) (f : ℕ → α) :
    ((List.range n).map f).sum = ∑ i ∈ Finset.range n, f i := by
  induction n with
  | zero => rfl
  | succ n ih => simp [range_succ, Finset.sum_range_succ, ih]

omit [ExactScalar α] in
theorem Shaped.rows_eq (hm : m.Shaped h w) : m.rows.toList = (List.range h).map m.row := by
  refine ext_getElem? fun i => ?_
  have hh : m.rows.size = h := hm.height_eq
  by_cases hi : i < h
  · simp [row, hi, hh]
  · simp [hi, hh]

theorem Shaped.total (hm : m.Shaped h w) :
    m.total = .ok (∑ i ∈ Finset.range h, ∑ j ∈ Finset.range w, m.entry i j) := by
  simp only [Matrix.total, Scalar.sum_eq, Scalar.sum?_eq, hm.rows_eq, map_map]
  rw [sum_map_range]
  refine congrArg Except.ok (Finset.sum_congr rfl fun i _ => ?_)
  simp only [entry_eq]
  exact sum_values_eq (hm.bounded i)

end BeliefLogic.Matrix
