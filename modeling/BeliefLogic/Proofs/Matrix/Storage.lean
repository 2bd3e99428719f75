import Mathlib
import BeliefLogic.Matrix.Basic

/-!
# Matrices in storage

Rows are copied cell by cell, and their starts moved along. What is stored then are the rows that
were asked for.
-/

namespace BeliefLogic

open List

namespace Matrix

variable {α : Type} {s : Storage α} {rs : List (Row α)}

namespace Storage

/-- The cells are those of rows, one after the other, and each row starts after those before it. -/
structure Stores (s : Storage α) (rs : List (Row α)) : Prop where
  cells : s.cells.toList = rs.flatten
  starts : s.starts.toList = (List.range (rs.length + 1)).map fun k => (rs.take k).flatten.length

namespace Stores

theorem size_starts (h : s.Stores rs) : s.starts.size = rs.length + 1 := by
  simpa using congrArg length h.starts

theorem start (h : s.Stores rs) {k : ℕ} (hk : k ≤ rs.length) :
    s.start k = (rs.take k).flatten.length := by
  have hlt : k < rs.length + 1 := by omega
  rw [Storage.start, ← Array.getElem?_toList, h.starts]
  simp [hlt]

/-- The cells from one start to another are those of the rows between. -/
theorem extract (h : s.Stores rs) {lo hi : ℕ} (hlo : lo ≤ hi) (hhi : hi ≤ rs.length) :
    (s.cells.extract (s.start lo) (s.start hi)).toList = ((rs.take hi).drop lo).flatten := by
  have hbefore : (rs.take hi).flatten = (rs.take lo).flatten ++ ((rs.take hi).drop lo).flatten := by
    rw [← flatten_append, ← min_eq_left hlo, ← take_take, min_eq_left hlo, take_append_drop]
  have hall : rs.flatten = (rs.take hi).flatten ++ (rs.drop hi).flatten := by
    rw [← flatten_append, take_append_drop]
  rw [h.start hhi, h.start (hlo.trans hhi), Array.toList_extract, extract_eq_take_drop, h.cells,
    ← drop_take, hall, take_left, hbefore, drop_left]

theorem row (h : s.Stores rs) {i : ℕ} (hi : i < rs.length) : (s.row i).toList = rs[i] := by
  rw [Storage.row, h.extract (Nat.le_succ i) hi, drop_take, Nat.succ_eq_add_one,
    Nat.add_sub_cancel_left, drop_eq_getElem_cons hi, take_succ_cons, take_zero, flatten_singleton]

theorem rows (h : s.Stores rs) : s.rows = rs.toArray := by
  refine Array.ext (by simp [Storage.rows, h.size_starts]) fun i hi hi' => ?_
  have hi : i < rs.length := hi'
  simp [Storage.rows, h.row hi]

end Stores

/-- A row that is copied is stored behind the others. -/
theorem Stores.push (h : s.Stores rs) (r : Array (ℕ × α)) :
    Stores ⟨s.cells ++ r, s.starts.push (s.cells.size + r.size)⟩ (rs ++ [r.toList]) where
  cells := by simp [h.cells]
  starts := by
    have hsize : s.cells.size = rs.flatten.length := by rw [← h.cells, Array.length_toList]
    rw [Array.toList_push, h.starts, length_append, length_singleton, range_succ (n := rs.length + 1),
      map_append]
    congr 1
    · refine map_congr_left fun k hk => ?_
      rw [take_append_of_le_length (by have := mem_range.1 hk; omega)]
    · simp [hsize]

/-- Shuffling stores the rows in the order of their numbers. -/
theorem Stores.shuffle (h : s.Stores rs) {order : List ℕ} (hin : ∀ i ∈ order, i < rs.length) :
    (s.shuffle order).Stores (order.map fun i => rs[i]?.getD []) := by
  induction order using List.reverseRecOn with
  | nil => exact ⟨rfl, rfl⟩
  | append_singleton order i ih =>
    have hi := hin i (by simp)
    have hrow : (s.row i).toList = rs[i]?.getD [] := by simp [h.row hi, hi]
    rw [Storage.shuffle, foldl_append, map_append, map_singleton, ← hrow]
    exact (ih fun k hk => hin k (mem_append_left _ hk)).push (s.row i)

/-- Selecting stores the rows between two bounds. -/
theorem Stores.select (h : s.Stores rs) {lo hi : ℕ} (hlo : lo ≤ hi) (hhi : hi ≤ rs.length) :
    (s.select lo hi).Stores ((rs.take hi).drop lo) where
  cells := h.extract hlo hhi
  starts := by
    refine ext_getElem (by simp [Storage.select, h.size_starts]; omega) fun k hk hk' => ?_
    have hle : k ≤ hi - lo := by simp at hk'; omega
    have hfrom : s.starts[lo + k]?.getD 0 = (rs.take (lo + k)).flatten.length :=
      h.start (by omega)
    have hsize : lo + k < s.starts.size := by rw [h.size_starts]; omega
    rw [Array.getElem?_eq_getElem hsize, Option.getD_some] at hfrom
    simp [Storage.select, hfrom, h.start (hlo.trans hhi), take_add, drop_take, take_take, hle]

end Storage

theorem stores_storage (m : Matrix α) : m.storage.Stores m.rows.toList where
  cells := rfl
  starts := by
    have key (rs : List (Row α)) (a : ℕ) (starts : List ℕ) :
        (rs.foldl (fun starts r => (starts.headD 0 + r.length) :: starts) (a :: starts)).reverse =
          starts.reverse ++
            (List.range (rs.length + 1)).map fun k => a + (rs.take k).flatten.length := by
      induction rs generalizing a starts with
      | nil => simp
      | cons r rs ih =>
        rw [foldl_cons, ih, length_cons, range_succ_eq_map (n := rs.length + 1)]
        simp [Nat.add_assoc]
    have h := key m.rows.toList 0 []
    simp only [Nat.zero_add] at h
    exact h

end Matrix

end BeliefLogic
