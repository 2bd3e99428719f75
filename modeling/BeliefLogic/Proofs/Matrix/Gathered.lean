import BeliefLogic.Proofs.Matrix.Combined
import BeliefLogic.Proofs.Outcome

/-!
# Matrices gathered from places

A matrix made of weighted places stores every place once, with its weights added up in the order of
the list, for scalars of any kind.
-/

namespace BeliefLogic.Matrix

open Outcome List

variable {α : Type} {m : Matrix α} {es : List (ℕ × ℕ × α)} {h j w : ℕ} {r : Row α} {x : α}

/-- Values added up from the left. Without values there is no sum. -/
def addUp (add : α → α → α) : List α → Option α
  | [] => none
  | x :: xs => some (xs.foldl add x)

theorem exists_mem_of_addUp {add : α → α → α} {xs : List α} (h : addUp add xs = some x) :
    ∃ y, y ∈ xs := by
  cases xs with
  | nil => cases h
  | cons y _ => exact ⟨y, mem_cons_self⟩

theorem addUp_induction {add : α → α → α} {P : α → Prop} {xs : List α} (h : addUp add xs = some x)
    (hxs : ∀ y ∈ xs, P y) (hadd : ∀ y z, P y → P z → P (add y z)) : P x := by
  cases xs with
  | nil => cases h
  | cons y ys =>
    obtain rfl := Option.some.inj h
    exact foldlRecOn ys add (hxs y mem_cons_self) fun z hz v hv =>
      hadd z v hz (hxs v (mem_cons_of_mem _ hv))

/-- What a row stores in a column, in the order of storage. -/
def columnValues (r : Row α) (j : ℕ) : List α :=
  r.filterMap fun e => if e.1 = j then some e.2 else none

@[simp] theorem columnValues_nil (j : ℕ) : columnValues ([] : Row α) j = [] := rfl

@[simp] theorem columnValues_cons (e : ℕ × α) (r : Row α) (j : ℕ) :
    columnValues (e :: r) j = if e.1 = j then e.2 :: columnValues r j else columnValues r j := by
  by_cases h : e.1 = j <;> simp [columnValues, h]

theorem columnValues_eq (r : Row α) (j : ℕ) :
    columnValues r j = (r.filter (·.1 = j)).map (·.2) := by
  induction r with
  | nil => rfl
  | cons e r ih => by_cases he : e.1 = j <;> simp [he, ih]

theorem mem_columnValues : x ∈ columnValues r j ↔ (j, x) ∈ r := by
  simp [columnValues_eq]

theorem columnValues_eq_nil (h : ∀ e ∈ r, e.1 ≠ j) : columnValues r j = [] :=
  eq_nil_iff_forall_not_mem.2 fun _ hx => h _ (mem_columnValues.1 hx) rfl

/-- A row that stores, in increasing columns, the sums of another row. -/
structure Collects (add : α → α → α) (r s : Row α) : Prop where
  increasing : Increasing s
  mem_iff : ∀ j x, (j, x) ∈ s ↔ addUp add (columnValues r j) = some x

/-- Neighbours in one column are added up. -/
theorem collects_mergeColumns (add : α → α → α) (h : r.Pairwise fun a b => a.1 ≤ b.1) :
    Collects add r (mergeColumns add r) := by
  fun_induction mergeColumns add r with
  | case1 x j y rest ih =>
    obtain ⟨hj, hrest⟩ := pairwise_cons.1 h
    obtain ⟨hincreasing, hmem⟩ := ih (pairwise_cons.2
      ⟨fun e he => hj e (mem_cons_of_mem _ he), (pairwise_cons.1 hrest).2⟩)
    refine ⟨hincreasing, fun k z => (hmem k z).trans ?_⟩
    by_cases hk : j = k <;> simp [hk, addUp]
  | case2 j x k y rest hne ih =>
    obtain ⟨hj, hrest⟩ := pairwise_cons.1 h
    obtain ⟨hincreasing, hmem⟩ := ih hrest
    -- everything that follows is in later columns
    have hlater : ∀ e ∈ (k, y) :: rest, j < e.1 := by
      intro e he
      refine lt_of_lt_of_le (lt_of_le_of_ne (hj (k, y) mem_cons_self) hne) ?_
      rcases mem_cons.1 he with rfl | he
      · exact le_rfl
      · exact (pairwise_cons.1 hrest).1 e he
    have hnone : columnValues ((k, y) :: rest) j = [] :=
      columnValues_eq_nil fun e he => (hlater e he).ne'
    refine ⟨pairwise_cons.2 ⟨fun e he => ?_, hincreasing⟩, fun l z => ?_⟩
    · obtain ⟨x', hx'⟩ := exists_mem_of_addUp ((hmem e.1 e.2).1 he)
      exact hlater (e.1, x') (mem_columnValues.1 hx')
    · rw [mem_cons, columnValues_cons]
      by_cases hl : j = l
      · subst hl
        have hout : (j, z) ∉ mergeColumns add ((k, y) :: rest) := by
          rw [hmem, hnone]
          simp [addUp]
        simp [hout, hnone, addUp, eq_comm]
      · simp only [hl, if_false, ← hmem l z, Prod.mk.injEq]
        exact ⟨fun hz => hz.elim (fun heq => absurd heq.1.symm hl) id, .inr⟩
  | case3 r hr =>
    match r with
    | [] => exact ⟨.nil, by simp [addUp]⟩
    | [e] =>
      refine ⟨pairwise_singleton _ _, fun j x => ?_⟩
      by_cases hj : e.1 = j
      · subst hj
        simp [addUp, Prod.ext_iff, eq_comm]
      · simp [hj, addUp, Prod.ext_iff, eq_comm]
    | e :: f :: rest => exact absurd rfl (hr e.1 e.2 f.1 f.2 rest)

/-- A row whose columns increase has nothing to add up. -/
theorem Increasing.collects (add : α → α → α) (h : Increasing r) : Collects add r r := by
  refine ⟨h, fun j x => ?_⟩
  induction r with
  | nil => simp [addUp]
  | cons e r ih =>
    obtain ⟨he, hr⟩ := pairwise_cons.1 h
    rw [mem_cons, ih hr, columnValues_cons]
    by_cases hj : e.1 = j
    · subst hj
      have hnone : columnValues r e.1 = [] := columnValues_eq_nil fun f hf => (he f hf).ne'
      simp [hnone, addUp, Prod.ext_iff, eq_comm]
    · simp only [hj, if_false, or_iff_right_iff_imp]
      rintro rfl
      exact absurd rfl hj

theorem columnLe_trans (a b c : ℕ × α) (hab : decide (a.1 ≤ b.1) = true)
    (hbc : decide (b.1 ≤ c.1) = true) : decide (a.1 ≤ c.1) = true :=
  decide_eq_true ((of_decide_eq_true hab).trans (of_decide_eq_true hbc))

theorem columnLe_total (a b : ℕ × α) : (decide (a.1 ≤ b.1) || decide (b.1 ≤ a.1)) = true := by
  simpa using le_total a.1 b.1

theorem pairwise_sortRow (r : Row α) : (sortRow r).Pairwise fun a b => a.1 ≤ b.1 :=
  (pairwise_mergeSort columnLe_trans columnLe_total r).imp of_decide_eq_true

/-- Sorting a row keeps the order within each column. -/
theorem columnValues_sortRow (r : Row α) (j : ℕ) : columnValues (sortRow r) j = columnValues r j := by
  rw [columnValues_eq, columnValues_eq]
  have hsub : (r.filter (·.1 = j)).Sublist (sortRow r) := by
    refine sublist_mergeSort columnLe_trans columnLe_total ?_ filter_sublist
    refine pairwise_of_forall_mem_list fun a ha b hb => ?_
    have ha : a.1 = j := of_decide_eq_true (mem_filter.1 ha).2
    have hb : b.1 = j := of_decide_eq_true (mem_filter.1 hb).2
    exact decide_eq_true (ha.trans hb.symm).le
  have hfilter := hsub.filter (·.1 = j)
  rw [filter_filter] at hfilter
  have hlength : ((sortRow r).filter (·.1 = j)).length = (r.filter (·.1 = j)).length :=
    ((mergeSort_perm r _).filter _).length_eq
  simp only [Bool.and_self] at hfilter
  rw [hfilter.eq_of_length hlength.symm]

theorem collects_canonicalRow (add : α → α → α) (r : Row α) :
    Collects add r (canonicalRow add r) := by
  unfold canonicalRow
  split
  · next hsorted => exact (increasing_of_sortedRow hsorted).collects add
  · obtain ⟨hincreasing, hmem⟩ := collects_mergeColumns add (pairwise_sortRow r)
    exact ⟨hincreasing, fun j x => by rw [hmem, columnValues_sortRow]⟩

/-- The values that are listed for a place, in order. -/
def placeValues (es : List (ℕ × ℕ × α)) (i j : ℕ) : List α :=
  columnValues ((es.filter (·.1 = i)).map (·.2)) j

theorem mem_placeValues {i : ℕ} : x ∈ placeValues es i j ↔ (i, j, x) ∈ es := by
  simp [placeValues, mem_columnValues]

theorem mem_entries {i : ℕ} : (i, j, x) ∈ m.entries ↔ (j, x) ∈ m.row i := by
  simp only [entries, mem_flatMap, mem_range, mem_map, Prod.mk.injEq]
  constructor
  · rintro ⟨_, -, ⟨_, _⟩, he, rfl, rfl, rfl⟩
    exact he
  · intro he
    refine ⟨i, ?_, (j, x), he, rfl, rfl, rfl⟩
    by_contra hi
    have hnone : m.rows[i]? = none := Array.getElem?_eq_none (not_lt.1 hi)
    simp [row, hnone] at he

/-- Places are listed once if columns increase in every row. -/
theorem nodup_places (h : ∀ i, Increasing (m.row i)) :
    (m.entries.map fun e => (e.1, e.2.1)).Nodup := by
  simp only [entries, map_flatMap, map_map]
  refine nodup_flatMap.2 ⟨fun i _ => ?_, ?_⟩
  · refine List.Nodup.of_map Prod.snd ?_
    simpa [Function.comp_def] using increasing_nodup (h i)
  · refine nodup_range.imp fun {i k} hne e hi hk => hne ?_
    obtain ⟨_, -, rfl⟩ := mem_map.1 hi
    obtain ⟨_, -, heq⟩ := mem_map.1 hk
    exact (congrArg Prod.fst heq).symm

theorem size_foldl_modify {β : Type} (place : β → ℕ) (f : β → Row α → Row α) (es : List β)
    (rows : Array (Row α)) :
    (es.foldl (fun rows e => rows.modify (place e) (f e)) rows).size = rows.size := by
  induction es generalizing rows with
  | nil => rfl
  | cons e es ih => rw [foldl_cons, ih, Array.size_modify]

/-- A matrix that is gathered from places has the rows that collect them. -/
theorem gatherEntries_ok {add : α → α → α} (hm : gatherEntries add h w es = .ok m) :
    (m.height = h ∧ m.width = w) ∧ (∀ e ∈ es, e.1 < h ∧ e.2.1 < w) ∧
      ∀ i, Collects add ((es.filter (·.1 = i)).map (·.2)) (m.row i) := by
  unfold gatherEntries at hm
  split at hm
  · next hall =>
    obtain rfl := Except.ok.inj hm
    have hplaces : ∀ e ∈ es, e.1 < h ∧ e.2.1 < w := by simpa using hall
    have hrows (i : ℕ) : (es.foldl (fun (rows : Array (Row α)) (e : ℕ × ℕ × α) =>
        rows.modify e.1 ((e.2.1, e.2.2) :: ·)) (Array.replicate h []))[i]? =
          if i < h then some ((es.filter (·.1 = i)).map (·.2)).reverse else none := by
      have := row_foldl_modify (es.map fun e => (e.2.1, e.1, e.2.2)) (Array.replicate h []) i
      rw [foldl_map, Array.getElem?_replicate] at this
      refine this.trans ?_
      split <;> simp [filter_map, Function.comp_def]
    refine ⟨⟨?_, rfl⟩, hplaces, fun i => ?_⟩
    · simp [height, size_foldl_modify]
    · have hrow := collects_canonicalRow add ((es.filter (·.1 = i)).map (·.2))
      simp only [row, Array.getElem?_map, hrows]
      split
      · simpa using hrow
      · next hi =>
        -- nothing is listed for rows beyond the last
        have hnone : es.filter (·.1 = i) = [] := by
          refine filter_eq_nil_iff.2 fun e he hei => hi ?_
          exact of_decide_eq_true hei ▸ (hplaces e he).1
        simpa [hnone, canonicalRow, sortedRow] using hrow
  · cases hm

/-- Changing every stored value keeps all places. -/
theorem mapM_rows {f : α → Except Error α} {m' : Matrix α} (h : m.mapM f = .ok m') :
    m'.height = m.height ∧ m'.width = m.width ∧
      ∀ i, Forall₂ (fun a b => a.1 = b.1 ∧ f a.2 = .ok b.2) (m.row i) (m'.row i) := by
  simp only [mapM, then_ok, except_pure_ok] at h
  obtain ⟨rows, hrows, rfl⟩ := h
  rw [Array.mapM_eq_mapM_toList] at hrows
  cases hlist : m.rows.toList.mapM fun r : Row α => r.mapM fun e => do
      let y ← f e.2
      pure (e.1, y) with
  | error e => rw [hlist] at hrows; cases hrows
  | ok list =>
    rw [hlist] at hrows
    obtain rfl := Except.ok.inj hrows
    have hall := except_mapM_ok hlist
    refine ⟨by simpa [height] using hall.length_eq.symm, rfl, fun i => ?_⟩
    rw [row, row, ← Array.getElem?_toList, ← Array.getElem?_toList]
    refine (except_mapM_ok (forall₂_getD hall rfl i)).imp fun a b hab => ?_
    simp only [then_ok, except_pure_ok] at hab
    obtain ⟨y, hy, rfl⟩ := hab
    exact ⟨rfl, hy⟩

/-- A matrix of weighted places stores the columns of a row in order. -/
theorem increasing_ofWeights [Scalar α] (hm : ofWeights h w es = .ok m) (i : ℕ) :
    Increasing (m.row i) := by
  obtain ⟨g, hg, hm⟩ := then_ok.1 hm
  obtain ⟨-, -, hcollects⟩ := gatherEntries_ok hg
  obtain ⟨-, -, hrows⟩ := mapM_rows hm
  have hcolumns : (g.row i).map (·.1) = (m.row i).map (·.1) := by
    have := (hrows i).imp fun _ _ hab => hab.1
    rwa [← forall₂_map_right_iff, ← forall₂_map_left_iff, forall₂_eq_eq_eq] at this
  refine pairwise_map.1 ?_
  rw [← hcolumns]
  exact pairwise_map.2 (hcollects i).increasing

/-- A matrix stores every listed place once, with the sum of its weights. -/
theorem ofWeights_ok [Scalar α] (hm : ofWeights h w es = .ok m) :
    m.Shaped h w ∧ (m.entries.map fun e => (e.1, e.2.1)).Nodup ∧
      ∀ i j x, (i, j, x) ∈ m.entries ↔
        ∃ y, addUp (· + ·) (placeValues es i j) = some y ∧ Scalar.store y = .ok x := by
  have hincreasing := increasing_ofWeights hm
  obtain ⟨g, hg, hm⟩ := then_ok.1 hm
  obtain ⟨⟨hheight, hwidth⟩, hplaces, hcollects⟩ := gatherEntries_ok hg
  obtain ⟨hheight', hwidth', hrows⟩ := mapM_rows hm
  have hmem (i j : ℕ) (x : α) :
      (j, x) ∈ m.row i ↔ ∃ y, (j, y) ∈ g.row i ∧ Scalar.store y = .ok x := by
    constructor
    · intro hx
      obtain ⟨⟨k, y⟩, hy, rfl, hstore⟩ := exists_of_forall₂ (hrows i).flip _ hx
      exact ⟨y, hy, hstore⟩
    · rintro ⟨y, hy, hstore⟩
      obtain ⟨⟨k, z⟩, hz, rfl, hstore'⟩ := exists_of_forall₂ (hrows i) _ hy
      obtain rfl := ok_unique hstore' hstore
      exact hz
  refine ⟨⟨hheight'.trans hheight, hwidth'.trans hwidth, fun i e he => ?_⟩,
    nodup_places hincreasing, fun i j x => ?_⟩
  · obtain ⟨y, hy, -⟩ := (hmem i e.1 e.2).1 he
    obtain ⟨z, hz⟩ := exists_mem_of_addUp (((hcollects i).mem_iff e.1 y).1 hy)
    exact (hplaces (i, e.1, z) (mem_placeValues.1 hz)).2
  · rw [mem_entries, hmem]
    simp [(hcollects i).mem_iff, placeValues]

end BeliefLogic.Matrix
