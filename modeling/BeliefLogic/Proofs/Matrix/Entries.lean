import BeliefLogic.Proofs.Exact
import BeliefLogic.Matrix.Adaptive

/-!
# Entries of sparse matrices

Over exact scalars products and transposes are those of entries.
-/

namespace BeliefLogic.Matrix

open List

variable {α : Type} {s : Scattered α} {j : ℕ} {r : Row α} {m n : Matrix α}

/-- The columns of a row stay below a bound. -/
def RowBounded (w : ℕ) (r : Row α) : Prop := ∀ e ∈ r, e.1 < w

theorem rowBounded_nil (w : ℕ) : RowBounded w ([] : Row α) := fun _ h => by simp at h

theorem RowBounded.filter {w : ℕ} (h : RowBounded w r) (p : ℕ × α → Bool) :
    RowBounded w (r.filter p) := fun e he => h e (mem_of_mem_filter he)

theorem row_map (m : Matrix α) (f : Row α → Row α) (hf : f [] = []) (w i : ℕ) :
    (⟨w, m.rows.map f⟩ : Matrix α).row i = f (m.row i) := by
  simp only [row, Array.getElem?_map]
  cases m.rows[i]? <;> simp [hf]

/-- Entries filed one by one under their columns. -/
theorem row_foldl_modify (es : List (ℕ × ℕ × α)) (rows : Array (Row α)) (c : ℕ) :
    (es.foldl (fun (rows : Array (Row α)) (e : ℕ × ℕ × α) =>
      rows.modify e.2.1 ((e.1, e.2.2) :: ·)) rows)[c]? =
    rows[c]?.map fun r => ((es.filter (·.2.1 = c)).map fun e => (e.1, e.2.2)).reverse ++ r := by
  induction es generalizing rows with
  | nil => simp
  | cons e es ih =>
    rw [foldl_cons, ih, Array.getElem?_modify]
    by_cases he : e.2.1 = c
    · simp [he, Function.comp_def]
    · simp [he]

/-- The columns met are listed once, and are those with a value. -/
structure Scattered.Valid (s : Scattered α) : Prop where
  nodup : s.met.Nodup
  mem_met : ∀ j, j ∈ s.met ↔ ∃ y, s.cells[j]? = some (some y)

theorem Scattered.Valid.lt_size (h : s.Valid) (hj : j ∈ s.met) : j < s.cells.size := by
  obtain ⟨y, hy⟩ := (h.mem_met j).1 hj
  exact (Array.getElem?_eq_some_iff.1 hy).1

variable [ExactScalar α]

/-- The sum of what a row stores in a column. -/
def rowEntry (r : Row α) (j : ℕ) : α := (r.map fun e => if e.1 = j then e.2 else 0).sum

@[simp] theorem rowEntry_nil (j : ℕ) : rowEntry ([] : Row α) j = 0 := rfl

@[simp] theorem rowEntry_cons (e : ℕ × α) (r : Row α) (j : ℕ) :
    rowEntry (e :: r) j = (if e.1 = j then e.2 else 0) + rowEntry r j := by
  simp [rowEntry]

@[simp] theorem rowEntry_append (r s : Row α) (j : ℕ) :
    rowEntry (r ++ s) j = rowEntry r j + rowEntry s j := by
  simp [rowEntry]

theorem rowEntry_eq_zero (h : ∀ e ∈ r, e.1 ≠ j) : rowEntry r j = 0 := by
  refine sum_eq_zero fun x hx => ?_
  obtain ⟨e, he, rfl⟩ := mem_map.1 hx
  exact if_neg (h e he)

@[simp] theorem rowEntry_filter (r : Row α) (j : ℕ) :
    rowEntry (r.filter fun e => !Scalar.isZero e.2) j = rowEntry r j := by
  induction r with
  | nil => rfl
  | cons e r ih => by_cases he : e.2 = 0 <;> simp_all

theorem entry_eq (m : Matrix α) (i j : ℕ) : m.entry i j = rowEntry (m.row i) j := by
  simp only [entry]
  induction m.row i with
  | nil => rfl
  | cons e r ih => by_cases he : e.1 = j <;> simp_all

/-- The sum of a row's values times a function of their columns. -/
def rowDot (r : Row α) (f : ℕ → α) : α := (r.map fun e => e.2 * f e.1).sum

@[simp] theorem rowDot_nil (f : ℕ → α) : rowDot ([] : Row α) f = 0 := rfl

@[simp] theorem rowDot_cons (e : ℕ × α) (r : Row α) (f : ℕ → α) :
    rowDot (e :: r) f = e.2 * f e.1 + rowDot r f := by
  simp [rowDot]

/-- A weighted sum over what a row stores is one over all columns. -/
theorem rowDot_eq_sum {w : ℕ} (h : RowBounded w r) (f : ℕ → α) :
    rowDot r f = ∑ j ∈ Finset.range w, rowEntry r j * f j := by
  induction r with
  | nil => simp
  | cons e r ih =>
    have he : e.1 ∈ Finset.range w := Finset.mem_range.2 (h e (by simp))
    simp only [rowDot_cons, rowEntry_cons, add_mul, Finset.sum_add_distrib, ite_mul, zero_mul,
      Finset.sum_ite_eq, he, if_true]
    rw [ih fun e' he' => h e' (mem_cons_of_mem _ he')]

namespace Scattered

theorem valid_none (w : ℕ) : (Scattered.none w : Scattered α).Valid where
  nodup := nodup_nil
  mem_met j := by simp [Scattered.none, Array.getElem?_replicate]

@[simp] theorem get_none (w k : ℕ) : (Scattered.none w : Scattered α).get k = 0 := by
  simp only [Scattered.none, get, Array.getElem?_replicate]
  split <;> rfl

@[simp] theorem size_put (s : Scattered α) (j : ℕ) (x : α) :
    (s.put j x).cells.size = s.cells.size := by
  unfold put; split <;> simp

/-- Adding a value to a column changes that column only. -/
theorem get_put (s : Scattered α) (hj : j < s.cells.size) (x : α) (k : ℕ) :
    (s.put j x).get k = s.get k + if j = k then x else 0 := by
  unfold put
  split
  next y hy =>
    obtain ⟨_, hy⟩ := Array.getElem?_eq_some_iff.1 hy
    by_cases h : j = k
    · subst h; simp [get, hy, hj]
    · simp [get, h]
  next hy =>
    obtain ⟨_, hy⟩ := Array.getElem?_eq_some_iff.1 hy
    by_cases h : j = k
    · subst h; simp [get, hy, hj]
    · simp [get, h]
  next hy => simp [hj] at hy

theorem Valid.put (h : s.Valid) (j : ℕ) (x : α) : (s.put j x).Valid := by
  unfold Scattered.put
  split
  next y hy =>
    obtain ⟨hj, hy⟩ := Array.getElem?_eq_some_iff.1 hy
    refine ⟨h.nodup, fun k => ?_⟩
    by_cases hk : j = k
    · subst hk; simp [h.mem_met, hy, hj]
    · simp [h.mem_met, hk]
  next hy =>
    have hj := (Array.getElem?_eq_some_iff.1 hy).1
    refine ⟨nodup_cons.2 ⟨?_, h.nodup⟩, fun k => ?_⟩
    · simp [h.mem_met, hy]
    · by_cases hk : j = k
      · subst hk; simp [hj]
      · simp [h.mem_met, hk, Ne.symm hk]
  next => exact h

theorem Valid.get_eq_zero (h : s.Valid) (hj : j ∉ s.met) : s.get j = 0 := by
  rw [h.mem_met] at hj
  rcases hc : s.cells[j]? with _ | _ | y
  · simp [get, hc]
  · simp [get, hc]
  · exact absurd ⟨y, hc⟩ hj

theorem mem_met_put (s : Scattered α) (h : s.Valid) (hj : j < s.cells.size) (x : α) (k : ℕ) :
    k ∈ (s.put j x).met ↔ k ∈ s.met ∨ j = k := by
  unfold put
  split
  next y hy =>
    have : j ∈ s.met := (h.mem_met j).2 ⟨y, hy⟩
    refine ⟨.inl, fun hk => hk.elim id ?_⟩
    rintro rfl
    exact this
  next => simp [eq_comm, or_comm]
  next hy => simp [hj] at hy

/-- Putting the values of a row that fit adds them to the columns. -/
theorem putRow_spec (h : s.Valid) (hr : RowBounded s.cells.size r) :
    (s.putRow r).Valid ∧ (s.putRow r).cells.size = s.cells.size ∧
      (∀ k, (s.putRow r).get k = s.get k + rowEntry r k) ∧
      ∀ k, k ∈ (s.putRow r).met ↔ k ∈ s.met ∨ ∃ e ∈ r, e.1 = k := by
  induction r generalizing s with
  | nil => exact ⟨h, rfl, by simp [putRow], by simp [putRow]⟩
  | cons e r ih =>
    have he : e.1 < s.cells.size := hr e (by simp)
    obtain ⟨hv, hs, hg, hm⟩ := ih (h.put e.1 e.2) fun e' he' => by
      rw [size_put]; exact hr e' (mem_cons_of_mem _ he')
    refine ⟨hv, by rw [← size_put s e.1 e.2]; exact hs, fun k => ?_, fun k => ?_⟩
    · have := hg k
      rw [get_put s he, add_assoc] at this
      exact this
    · have := hm k
      rw [mem_met_put s h he, or_assoc] at this
      rw [exists_mem_cons_iff]
      exact this

/-- A gathered row has the values that were collected. -/
theorem Valid.rowEntry_gather (h : s.Valid) (k : ℕ) : rowEntry s.gather k = s.get k := by
  have key (js : List ℕ) (hjs : js.Nodup) :
      rowEntry (js.map fun j => (j, s.get j)) k = if k ∈ js then s.get k else 0 := by
    induction js with
    | nil => rfl
    | cons j js ih =>
      obtain ⟨hj, hjs⟩ := nodup_cons.1 hjs
      by_cases hk : j = k
      · subst hk; simp [ih hjs, hj]
      · simp [ih hjs, hk, Ne.symm hk]
  rw [gather, key _ h.nodup]
  split
  · rfl
  · next hk => exact (h.get_eq_zero hk).symm

theorem mem_gather {e : ℕ × α} (he : e ∈ s.gather) : e.1 ∈ s.met := by
  obtain ⟨j, hj, rfl⟩ := mem_map.1 he
  exact hj

end Scattered

theorem rowEntry_map_times (x : α) (r : Row α) (k : ℕ) :
    rowEntry (r.map fun e => (e.1, x * e.2)) k = x * rowEntry r k := by
  induction r with
  | nil => simp
  | cons e r ih => by_cases he : e.1 = k <;> simp [ih, mul_add]

/-- The values that a row collects on its way through a matrix. -/
theorem mulRow_collect (hs : s.Valid) (hn : ∀ j, RowBounded s.cells.size (n.row j)) :
    let t := r.foldl (fun s (e : ℕ × α) =>
      (n.row e.1).foldl (fun s (f : ℕ × α) => s.put f.1 (Scalar.times e.2 f.2)) s) s
    t.Valid ∧ t.cells.size = s.cells.size ∧
      ∀ k, t.get k = s.get k + rowDot r fun j => rowEntry (n.row j) k := by
  induction r generalizing s with
  | nil => exact ⟨hs, rfl, by simp⟩
  | cons e r ih =>
    -- one stored value adds a multiple of a row
    have step : (n.row e.1).foldl (fun s (f : ℕ × α) => s.put f.1 (Scalar.times e.2 f.2)) s =
        s.putRow ((n.row e.1).map fun f => (f.1, e.2 * f.2)) := by
      simp [Scattered.putRow, foldl_map]
    obtain ⟨hv, hz, hg, -⟩ := Scattered.putRow_spec hs
      (r := (n.row e.1).map fun f => (f.1, e.2 * f.2)) (by
        intro f hf
        obtain ⟨f', hf', rfl⟩ := mem_map.1 hf
        exact hn e.1 f' hf')
    rw [← step] at hv hz hg
    obtain ⟨hv', hz', hg'⟩ := ih hv fun j => by rw [hz]; exact hn j
    refine ⟨hv', hz'.trans hz, fun k => ?_⟩
    have := hg' k
    rw [hg k, rowEntry_map_times, add_assoc] at this
    exact this

/-- The product of a row with a matrix, entry by entry. -/
theorem rowEntry_mulRow (hn : ∀ j, RowBounded n.width (n.row j)) (r : Row α) (k : ℕ) :
    rowEntry (mulRow r n) k = rowDot r fun j => rowEntry (n.row j) k := by
  have hsize : (Scattered.none n.width : Scattered α).cells.size = n.width := by
    simp [Scattered.none]
  obtain ⟨hv, -, hg⟩ := mulRow_collect (Scattered.valid_none n.width)
    (by rw [hsize]; exact hn)
  have := hv.rowEntry_gather k
  rw [hg k, Scattered.get_none, zero_add] at this
  rw [mulRow, rowEntry_filter]
  exact this

theorem rowBounded_mulRow (hn : ∀ j, RowBounded n.width (n.row j)) (r : Row α) :
    RowBounded n.width (mulRow r n) := by
  have hsize : (Scattered.none n.width : Scattered α).cells.size = n.width := by
    simp [Scattered.none]
  obtain ⟨hv, hs, -⟩ := mulRow_collect (Scattered.valid_none n.width)
    (by rw [hsize]; exact hn)
  refine RowBounded.filter (fun e he => ?_) _
  have := hv.lt_size (Scattered.mem_gather he)
  rw [hs, hsize] at this
  exact this

@[simp] theorem mulRow_nil (n : Matrix α) : mulRow [] n = [] := rfl

/-- A height and a width, with all columns below the width. -/
structure Shaped (m : Matrix α) (h w : ℕ) : Prop where
  height_eq : m.height = h
  width_eq : m.width = w
  bounded : ∀ i, RowBounded w (m.row i)

omit [ExactScalar α] in
/-- The shape of a matrix can be read off its rows. -/
theorem shaped_iff {h w : ℕ} :
    m.Shaped h w ↔ m.height = h ∧ m.width = w ∧ ∀ r ∈ m.rows.toList, ∀ e ∈ r, e.1 < w := by
  constructor
  · intro hm
    refine ⟨hm.height_eq, hm.width_eq, fun r hr => ?_⟩
    obtain ⟨i, hi⟩ := getElem?_of_mem hr
    have hrow : m.row i = r := by
      rw [row, ← Array.getElem?_toList, hi]
      rfl
    exact hrow ▸ hm.bounded i
  · rintro ⟨hh, hw, hrows⟩
    refine ⟨hh, hw, fun i => ?_⟩
    rw [row, ← Array.getElem?_toList]
    cases hi : m.rows.toList[i]? with
    | none => exact rowBounded_nil w
    | some r => exact hrows r (mem_of_getElem? hi)

instance (m : Matrix α) (h w : ℕ) : Decidable (m.Shaped h w) := decidable_of_iff _ shaped_iff.symm

namespace Shaped

variable {h w : ℕ}

theorem entry_of_le (hm : m.Shaped h w) (i : ℕ) (hj : w ≤ j) : m.entry i j = 0 := by
  rw [entry_eq]
  exact rowEntry_eq_zero fun e he => (lt_of_lt_of_le (hm.bounded i e he) hj).ne

theorem entry_of_height_le (hm : m.Shaped h w) {i : ℕ} (hi : h ≤ i) (j : ℕ) :
    m.entry i j = 0 := by
  have : m.rows[i]? = none := Array.getElem?_eq_none (hm.height_eq.le.trans hi)
  rw [entry_eq, row, this]
  rfl

end Shaped

/-- Products exist if the sizes agree, and have the entries of a product. -/
theorem Shaped.mul {h k w : ℕ} (hm : m.Shaped h k) (hn : n.Shaped k w) :
    ∃ p, m.mul n = .ok p ∧ p.Shaped h w ∧
      ∀ i j, p.entry i j = ∑ l ∈ Finset.range k, m.entry i l * n.entry l j := by
  have hb : ∀ j, RowBounded n.width (n.row j) := by rw [hn.width_eq]; exact hn.bounded
  refine ⟨_, if_pos (hm.width_eq.trans hn.height_eq.symm), ⟨?_, hn.width_eq, fun i => ?_⟩, ?_⟩
  · simpa [height] using hm.height_eq
  · rw [row_map m (fun r => mulRow r n) (mulRow_nil n), ← hn.width_eq]
    exact rowBounded_mulRow hb _
  · intro i j
    rw [entry_eq, row_map m (fun r => mulRow r n) (mulRow_nil n), rowEntry_mulRow hb, rowDot_eq_sum (hm.bounded i)]
    simp [entry_eq]

theorem rowEntry_filed_row (a c i : ℕ) (r : Row α) :
    rowEntry (((r.map fun e => (a, e.1, e.2)).filter (·.2.1 = c)).map fun e => (e.1, e.2.2)) i =
      if a = i then rowEntry r c else 0 := by
  induction r with
  | nil => simp
  | cons e r ih => by_cases hc : e.1 = c <;> by_cases ha : a = i <;> simp_all

/-- The entries of the first rows, filed under a column. -/
theorem rowEntry_filed (m : Matrix α) (n c i : ℕ) :
    rowEntry ((((List.range n).flatMap fun i => (m.row i).map fun e => (i, e.1, e.2)).filter
      (·.2.1 = c)).map fun e => (e.1, e.2.2)) i = if i < n then rowEntry (m.row i) c else 0 := by
  induction n with
  | zero => simp
  | succ n ih =>
    rw [range_succ, flatMap_append, filter_append, map_append,
      rowEntry_append, ih, flatMap_singleton, rowEntry_filed_row]
    rcases lt_trichotomy i n with h | h | h
    · simp [h, h.ne', h.trans (Nat.lt_succ_self n)]
    · simp [h]
    · simp [h.ne, h.not_gt, (Nat.succ_le_of_lt h).not_gt]

/-- Transposing swaps the places of entries. -/
theorem Shaped.transpose {h w : ℕ} (hm : m.Shaped h w) :
    m.transpose.Shaped w h ∧ ∀ i j, m.transpose.entry i j = m.entry j i := by
  have hrow (c : ℕ) : m.transpose.rows[c]? = if c < w then
      some ((m.entries.filter (·.2.1 = c)).map fun e => (e.1, e.2.2)) else none := by
    have := row_foldl_modify m.entries (Array.replicate m.width []) c
    rw [hm.width_eq, Array.getElem?_replicate] at this
    simp only [Matrix.transpose, Array.getElem?_map, hm.width_eq]
    refine (congrArg (Option.map List.reverse) this).trans ?_
    split <;> simp
  refine ⟨⟨?_, hm.height_eq, fun c e he => ?_⟩, fun c i => ?_⟩
  · refine le_antisymm ?_ ?_
    · by_contra hlt
      have := hrow w
      rw [Array.getElem?_eq_getElem (not_le.1 hlt)] at this
      simp at this
    · by_contra hlt
      have hnone : m.transpose.rows[m.transpose.height]? = none := Array.getElem?_eq_none le_rfl
      simp [hrow, not_le.1 hlt] at hnone
  · rw [row, hrow] at he
    split at he
    · obtain ⟨⟨i, j, x⟩, hi, rfl⟩ := mem_map.1 he
      have := (mem_filter.1 hi).1
      simp only [entries, mem_flatMap, mem_range, mem_map] at this
      obtain ⟨i', hi', _, _, hij⟩ := this
      rw [← hm.height_eq]
      cases hij
      exact hi'
    · simp at he
  · rw [entry_eq, row, hrow]
    split
    · next hc =>
      rw [entry_eq]
      refine (rowEntry_filed m m.height c i).trans ?_
      split
      · rfl
      · next hi =>
        rw [← entry_eq]
        exact (hm.entry_of_height_le (hm.height_eq ▸ not_lt.1 hi) c).symm
    · next hc => exact (hm.entry_of_le i (not_lt.1 hc)).symm

end BeliefLogic.Matrix
