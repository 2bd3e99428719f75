import BeliefLogic.Proofs.Examples.Batches
import BeliefLogic.Proofs.Program.Weights

/-!
# Shuffled examples

Whatever the orders, no row is lost or comes twice, and inputs stay with their outputs.
-/

namespace BeliefLogic

open Outcome Run List

variable {α : Type} {mode : Mode} {X Y : Matrix α} {size : ℕ}

structure Shuffling.Rearranges (s : Shuffling) : Prop where
  rows : ∀ mode l, (s.rows mode l).Perm l
  turns : ∀ l, (s.turns l).Perm l

namespace Matrix

/-- The rows of a matrix in the order of a list of numbers, each sorted. -/
def reordered (m : Matrix α) (numbers : List ℕ) : Matrix α :=
  ⟨m.width, (numbers.map fun r => sortRow (m.row r)).toArray⟩

@[simp] theorem toList_reordered (m : Matrix α) (numbers : List ℕ) :
    (m.reordered numbers).rows.toList = numbers.map fun r => sortRow (m.row r) := by
  simp [reordered]

theorem height_reordered (m : Matrix α) {numbers : List ℕ}
    (h : numbers.Perm (List.range m.height)) : (m.reordered numbers).height = m.height := by
  simp [reordered, height, h.length_eq]

theorem rows_eq_map_range (m : Matrix α) : m.rows.toList = (List.range m.height).map m.row := by
  refine ext_getElem (by simp [height]) fun i hi _ => ?_
  have hi : i < m.rows.size := hi
  simp [row, hi]

theorem tally_eq_sum (ns : List ℕ) : tally ns = ns.sum := by
  induction ns with
  | nil => rfl
  | cons n ns ih => rw [tally_cons, sum_cons, ih]

/-- Rows that are rearranged take up the same storage. -/
theorem permute_listedOrder (m : Matrix α) {numbers : List ℕ}
    (h : numbers.Perm (List.range m.height)) :
    m.permute (Examples.listedOrder numbers.toArray) = .ok (m.reordered numbers) := by
  have hlength : numbers.length = m.height := by simpa using h.length_eq
  have hin : ∀ r ∈ numbers, r < m.height := fun r hr => mem_range.1 (h.mem_iff.1 hr)
  -- Every listed number is that of a row.
  have hrow : ∀ i ∈ List.range m.height, (do
      let r ← Examples.listedOrder numbers.toArray i
      let r : ℤ := if r < 0 then r + m.height + 1 else r
      if r < 0 ∨ (m.height : ℤ) ≤ r then throw .outOfRange
      return r.toNat : Except Error _) = .ok (numbers.getD i 0) := by
    intro i hi
    have hi : i < numbers.length := by rw [hlength]; exact mem_range.1 hi
    have hlt : numbers[i] < m.height := hin _ (getElem_mem hi)
    have hget : Examples.listedOrder numbers.toArray i = .ok (numbers[i] : ℤ) := by
      simp [Examples.listedOrder, hi]
    have hnonneg : ¬((numbers[i] : ℤ) < 0) := by omega
    refine then_ok.2 ⟨_, hget, ?_⟩
    simp only [hnonneg]
    simp [hi, not_le.2 hlt]
  have hchosen : (List.range m.height).map (fun i => numbers.getD i 0) = numbers := by
    refine ext_getElem (by simp [hlength]) fun i hi hi' => ?_
    simp [hi']
  have hfrom : (fun i => m.rows.toList[i]?.getD []) = m.row := funext fun i => by simp [row]
  have hstores : (m.storage.shuffle numbers).Stores (numbers.map m.row) :=
    hfrom ▸ m.stores_storage.shuffle hin
  have hstored : (m.storage.shuffle numbers).cells.size = m.stored := by
    rw [← Array.length_toList, hstores.cells, length_flatten, stored, rows_eq_map_range,
      tally_eq_sum]
    exact ((h.map m.row).map List.length).sum_eq
  refine then_ok.2 ⟨_, except_mapM_eq hrow, ?_⟩
  rw [hchosen, if_neg (by omega), hstores.rows]
  simp [reordered]

end Matrix

namespace Examples

variable {e : Examples α} {rows : Mode → List ℕ → List ℕ}

/-- Examples with the rows of some modes reordered, inputs and outputs alike. -/
structure ReorderedOn (rows : Mode → List ℕ → List ℕ) (e e' : Examples α) (done : List Mode) :
    Prop where
  modes : e'.modes = e.modes
  reordered : ∀ mode ∈ done, ∀ X Y, e.inputs.get? mode = some (.matrix X) →
    e.outputs.get? mode = some (.matrix Y) →
      e'.inputs.get? mode = some (.matrix (X.reordered (rows mode (List.range X.height)))) ∧
      e'.outputs.get? mode = some (.matrix (Y.reordered (rows mode (List.range X.height))))
  rest : ∀ mode, (∀ m ∈ done, (m == mode) = false) →
    e'.inputs.get? mode = e.inputs.get? mode ∧ e'.outputs.get? mode = e.outputs.get? mode

theorem Paired.reordered (h : e.Paired) (hrows : ∀ mode l, (rows mode l).Perm l) {e' : Examples α}
    (he' : e.ReorderedOn rows e' e.modes) : e'.Paired := by
  have hdistinct : e'.inputs.entries.Pairwise fun a b => (a.1 == b.1) = false := by
    have hmodes : e.modes.Pairwise fun a b => (a == b) = false := pairwise_map.2 h.distinct
    rw [← he'.modes] at hmodes
    exact pairwise_map.1 hmodes
  refine ⟨hdistinct, fun mode x hmem => ?_⟩
  have hmode : mode ∈ e.modes := he'.modes ▸ mem_map_of_mem hmem
  obtain ⟨X, Y, hX, hY, hheight⟩ := h.get? hmode
  obtain ⟨hX', hY'⟩ := he'.reordered mode hmode X Y hX hY
  have hx := (Dictionary.lookup_of_mem hdistinct hmem).symm.trans hX'
  have hperm := hrows mode (List.range X.height)
  refine ⟨_, _, Option.some.inj hx, hY', ?_⟩
  rw [Matrix.height_reordered X hperm, Matrix.height_reordered Y (hheight ▸ hperm), hheight]

/-- The rows of one more mode are reordered. -/
theorem Paired.reorderMode_run [Scalar α] (h : e.Paired) (hrows : ∀ mode l, (rows mode l).Perm l)
    {e1 : Examples α} {done : List Mode} (he1 : e.ReorderedOn rows e1 done) (hmode : mode ∈ e.modes)
    (hnew : ∀ m ∈ done, (m == mode) = false) (w : World α) :
    ∃ e2, reorderMode (rows mode) mode (w, e1) = .ok () (w, e2) ∧
      e.ReorderedOn rows e2 (done ++ [mode]) := by
  obtain ⟨X, Y, hX, hY, hheight⟩ := h.get? hmode
  obtain ⟨hX1, hY1⟩ := he1.rest mode hnew
  rw [hX] at hX1
  rw [hY] at hY1
  set numbers := rows mode (List.range X.height) with hnumbers
  have hperm : numbers.Perm (List.range X.height) := hrows mode _
  have hXp := X.permute_listedOrder hperm
  have hYperm : numbers.Perm (List.range Y.height) := hheight ▸ hperm
  have hYp := Y.permute_listedOrder hYperm
  have hinputs : e1.inputsFor mode = .ok X := by
    simp [inputsFor, find, hX1, Operand.rows]
  set e2 : Examples α := { e1 with inputs := e1.inputs.put mode (.matrix (X.reordered numbers)) }
  have houtputs : e2.outputsFor mode = .ok Y := by
    simp [outputsFor, find, e2, hY1, Operand.rows]
  set e3 : Examples α := { e2 with outputs := e2.outputs.put mode (.matrix (Y.reordered numbers)) }
  have hin (m : Mode) : e3.inputs.get? m =
      if mode == m then some (.matrix (X.reordered numbers)) else e1.inputs.get? m :=
    Dictionary.get?_put _ _ _ _
  have hout (m : Mode) : e3.outputs.get? m =
      if mode == m then some (.matrix (Y.reordered numbers)) else e1.outputs.get? m :=
    Dictionary.get?_put _ _ _ _
  refine ⟨e3, ?_, ?_, fun m hm X' Y' hX' hY' => ?_, fun m hm => ?_⟩
  · refine bind_ok.2 ⟨e1, _, rfl, bind_ok.2 ⟨X, _, lift_ok.2 ⟨hinputs, rfl⟩, ?_⟩⟩
    refine bind_ok.2 ⟨_, _, lift_ok.2 ⟨hXp, rfl⟩, bind_ok.2 ⟨(), (w, e2), rfl, ?_⟩⟩
    refine bind_ok.2 ⟨e2, _, rfl, bind_ok.2 ⟨Y.reordered numbers, _, lift_ok.2 ⟨?_, rfl⟩, rfl⟩⟩
    exact then_ok.2 ⟨Y, houtputs, hYp⟩
  · have hmem : mode ∈ e1.modes := he1.modes.symm ▸ hmode
    have hkeys : e3.modes = e1.modes := Dictionary.keys_put_of_mem hmem BEq.rfl _
    exact hkeys.trans he1.modes
  · rcases mem_append.1 hm with hm | hm
    · rw [hin, hout, BEq.symm_false (hnew m hm)]
      exact he1.reordered m hm X' Y' hX' hY'
    · obtain rfl := mem_singleton.1 hm
      obtain rfl : X = X' := Operand.matrix.inj (Option.mem_unique hX hX')
      obtain rfl : Y = Y' := Operand.matrix.inj (Option.mem_unique hY hY')
      rw [hin, hout, BEq.rfl]
      exact ⟨rfl, rfl⟩
  · have hne := hm mode (mem_append_right _ (mem_singleton_self mode))
    rw [hin, hout, hne]
    exact he1.rest m fun m' hm' => hm m' (mem_append_left _ hm')

/-- The rows of all modes are reordered, one mode after the other. -/
theorem Paired.reorderExamples_run [Scalar α] (h : e.Paired) (hrows : ∀ mode l, (rows mode l).Perm l)
    (w : World α) :
    ∃ e', reorderExamples rows (w, e) = .ok () (w, e') ∧ e.ReorderedOn rows e' e.modes := by
  have hmodes : e.modes.Pairwise fun a b => (a == b) = false := pairwise_map.2 h.distinct
  have hstart : e.ReorderedOn rows e [] := ⟨rfl, by simp, fun _ _ => ⟨rfl, rfl⟩⟩
  have hstep : ∀ done mode rest, e.modes = done ++ mode :: rest →
      ∀ t : World α × Examples α, (t.1 = w ∧ e.ReorderedOn rows t.2 done) →
        ∃ t', (do reorderMode (rows mode) mode; pure (.yield ⟨⟩) : Run α _ (ForInStep PUnit)) t =
            .ok (.yield ⟨⟩) t' ∧
          t'.1 = w ∧ e.ReorderedOn rows t'.2 (done ++ [mode]) := by
    rintro done mode rest hsplit ⟨w', e1⟩ ⟨hw, he1⟩
    have hmode : mode ∈ e.modes := by rw [hsplit]; simp
    have hnew : ∀ m ∈ done, (m == mode) = false := by
      intro m hm
      rw [hsplit, pairwise_append] at hmodes
      exact hmodes.2.2 m hm mode mem_cons_self
    obtain ⟨e2, hrun, he2⟩ := h.reorderMode_run hrows he1 hmode hnew w'
    exact ⟨(w', e2), bind_ok.2 ⟨_, _, hrun, rfl⟩, hw, he2⟩
  obtain ⟨⟨w', e'⟩, hrun, hw, he'⟩ := exists_forIn (t := (w, e))
    (f := fun mode _ => do reorderMode (rows mode) mode; pure (.yield ⟨⟩)) hstep ⟨rfl, hstart⟩
  obtain rfl : w' = w := hw
  exact ⟨e', bind_ok.2 ⟨e, (w', e), rfl, bind_ok.2 ⟨_, _, hrun, rfl⟩⟩, he'⟩

theorem flatMap_piecesOf {β : Type} {f : Batch α → List β} {l : List β} {count : ℕ}
    (hl : l.length ≤ count * size) (hf : ∀ j,
      f ⟨mode, X.piece (j * size) size, Y.piece (j * size) size⟩ = (l.drop (j * size)).take size) :
    (piecesOf mode X Y size count).flatMap f = l := by
  rw [← flatten_pieces hl, pieces, piecesOf, flatMap_map, List.flatMap]
  simp [hf]

theorem CutInto.height_of_mem [Scalar α] {count : ℕ} (h : e.CutInto size mode X Y count)
    (hsize : 0 < size) {b : Batch α} (hb : b ∈ piecesOf mode X Y size count) :
    1 ≤ b.inputs.height ∧ b.inputs.height ≤ size ∧ b.outputs.height = b.inputs.height := by
  obtain ⟨j, hj, rfl⟩ := mem_map.1 hb
  have hlt := h.full j (mem_range.1 hj)
  have hY := h.height_eq
  simp only [Matrix.height, Matrix.piece, Array.size_extract] at hlt hY ⊢
  omega

end Examples

/-- Minibatches partition the examples. Whatever the orders are, the minibatches of a mode, put on
top of each other, are its rows in the chosen order, none empty and none larger than asked for. -/
theorem shuffledBatches_partition [Scalar α] {e : Examples α} (he : e.Paired) (hne : e.modes ≠ [])
    {size : ℕ} (hsize : 0 < size) {s : Shuffling} (hs : s.Rearranges) (reorder : Bool)
    (w : World α) :
    ∃ (bs : List (Batch α)) (e' : Examples α),
      shuffledBatches s (.whole size) reorder (w, e) = .ok (bs.map .ok) (w, e') ∧
      (∀ b ∈ bs, b.mode ∈ e.modes ∧ 1 ≤ b.inputs.height ∧ b.inputs.height ≤ size ∧
        b.outputs.height = b.inputs.height) ∧
      ∀ mode X Y, (mode, .matrix X) ∈ e.inputs.entries → e.outputs.get? mode = some (.matrix Y) →
        let chosen (m : Matrix α) : List (Row α) :=
          if reorder then
            (s.rows mode (List.range X.height)).map fun r => Matrix.sortRow (m.row r)
          else m.rows.toList
        let ofMode := bs.filter fun b => b.mode == mode
        ofMode.flatMap (fun b => b.inputs.rows.toList) = chosen X ∧
        ofMode.flatMap (fun b => b.outputs.rows.toList) = chosen Y ∧
        ofMode.flatMap (fun b => b.inputs.rows.toList.zip b.outputs.rows.toList) =
          (chosen X).zip (chosen Y) ∧
        ∀ b ∈ ofMode, b.inputs.width = X.width ∧ b.outputs.width = Y.width := by
  -- After reordering there are paired examples again, which are known row by row.
  obtain ⟨e', hrun, he', hmodes, hrows⟩ : ∃ e' : Examples α,
      (if reorder then reorderExamples s.rows else pure () : Run α (Examples α) Unit) (w, e) =
        .ok () (w, e') ∧ e'.Paired ∧ e'.modes = e.modes ∧
      ∀ mode X Y, (mode, .matrix X) ∈ e.inputs.entries → e.outputs.get? mode = some (.matrix Y) →
        let chosen (m : Matrix α) : Matrix α :=
          if reorder then m.reordered (s.rows mode (List.range X.height)) else m
        e'.inputs.get? mode = some (.matrix (chosen X)) ∧
          e'.outputs.get? mode = some (.matrix (chosen Y)) := by
    cases reorder with
    | false =>
      refine ⟨e, rfl, he, rfl, fun mode X Y hX hY => ⟨?_, hY⟩⟩
      exact Dictionary.lookup_of_mem he.distinct hX
    | true =>
      obtain ⟨e', hrun, he'⟩ := he.reorderExamples_run hs.rows w
      refine ⟨e', hrun, he.reordered hs.rows he', he'.modes, fun mode X Y hX hY => ?_⟩
      have hget := Dictionary.lookup_of_mem he.distinct hX
      exact he'.reordered mode (mem_map_of_mem hX) X Y hget hY
  obtain ⟨bs, hbatches, hof, hbs⟩ := he'.exists_batches (hmodes ▸ hne) hsize hs.turns
  refine ⟨bs, e', ?_, fun b hb => ?_, fun mode X Y hX hY => ?_⟩
  · have hlast : (do lift ((← state).batches s.turns (.whole size)) :
        Run α (Examples α) _) (w, e') = .ok (bs.map .ok) (w, e') :=
      bind_ok.2 ⟨e', _, rfl, lift_ok.2 ⟨hbatches, rfl⟩⟩
    cases reorder with
    | false =>
      obtain ⟨-, heq⟩ := pure_ok.1 hrun
      obtain rfl := (Prod.mk.inj heq).2
      exact hlast
    | true => exact bind_ok.2 ⟨(), (w, e'), hrun, hlast⟩
  · obtain ⟨X, Y, count, hcut, hfilter⟩ := hbs b.mode (hof b hb)
    have hmem : b ∈ bs.filter fun b' => b'.mode == b.mode := mem_filter.2 ⟨hb, BEq.rfl⟩
    exact ⟨hmodes ▸ hof b hb, hcut.height_of_mem hsize (hfilter ▸ hmem)⟩
  · obtain ⟨hX', hY'⟩ := hrows mode X Y hX hY
    obtain ⟨X', Y', count, hcut, hfilter⟩ := hbs mode (hmodes.symm ▸ mem_map_of_mem hX)
    obtain rfl := Operand.matrix.inj (Option.mem_unique hX' hcut.inputs)
    obtain rfl := Operand.matrix.inj (Option.mem_unique hY' hcut.outputs)
    have htoList (m : Matrix α) :
        (if reorder then m.reordered (s.rows mode (List.range X.height)) else m).rows.toList =
          if reorder then (s.rows mode (List.range X.height)).map fun r => Matrix.sortRow (m.row r)
          else m.rows.toList := by
      cases reorder <;> simp
    have hwidth (m : Matrix α) :
        (if reorder then m.reordered (s.rows mode (List.range X.height)) else m).width = m.width := by
      cases reorder <;> rfl
    have hcover := hcut.cover
    have hcover' := hcut.height_eq ▸ hcut.cover
    simp only [hfilter, ← htoList]
    refine ⟨?_, ?_, ?_, fun b hb => ?_⟩
    · exact Examples.flatMap_piecesOf hcover fun j => Matrix.toList_piece _ _ _
    · exact Examples.flatMap_piecesOf hcover' fun j => Matrix.toList_piece _ _ _
    · refine Examples.flatMap_piecesOf ((length_zip.trans_le (min_le_left _ _)).trans hcover) fun j => ?_
      simp [Matrix.toList_piece, List.zip, drop_zipWith, take_zipWith]
    · obtain ⟨j, -, rfl⟩ := mem_map.1 hb
      exact ⟨hwidth X, hwidth Y⟩

namespace Sample

/-- Three examples of a mode and one of another. -/
def questions : Examples ℚ where
  inputs := ⟨[(⟨⟨"path", ["i", "o"]⟩⟩, .matrix ⟨3, #[[(1, 1)], [(2, 1)], [(1, 2)]]⟩),
    (⟨⟨"path", ["o", "i"]⟩⟩, .matrix ⟨3, #[[(2, 5)]]⟩)]⟩
  outputs := ⟨[(⟨⟨"path", ["i", "o"]⟩⟩, .matrix ⟨3, #[[(2, 1)], [], [(2, 2), (1, 1)]]⟩),
    (⟨⟨"path", ["o", "i"]⟩⟩, .matrix ⟨3, #[[(1, 5)]]⟩)]⟩

theorem paired_questions : questions.Paired where
  distinct := by decide
  matrices mode x h := by
    rcases mem_pair.1 h with h | h
    · obtain ⟨rfl, rfl⟩ := Prod.mk.inj h
      exact ⟨_, _, rfl, rfl, rfl⟩
    · obtain ⟨rfl, rfl⟩ := Prod.mk.inj h
      exact ⟨_, _, rfl, rfl, rfl⟩

theorem rearranges_reversing : Shuffling.reversing.Rearranges where
  rows _ l := reverse_perm l
  turns l := reverse_perm l

end Sample

open Sample in
/-- Three rows in reverse order, in minibatches of two. -/
theorem shuffledBatches_partition_questions : ∃ (bs : List (Batch ℚ)) (e' : Examples ℚ),
    shuffledBatches .reversing (.whole 2) true (world, questions) = .ok (bs.map .ok) (world, e') ∧
      (bs.filter fun b => b.mode == ⟨⟨"path", ["i", "o"]⟩⟩).flatMap
          (fun b => b.inputs.rows.toList.zip b.outputs.rows.toList) =
        [([(1, 2)], [(1, 1), (2, 2)]), ([(2, 1)], []), ([(1, 1)], [(2, 1)])] := by
  obtain ⟨bs, e', hrun, -, hparts⟩ := shuffledBatches_partition paired_questions (by decide)
    (show 0 < 2 by decide) rearranges_reversing true world
  obtain ⟨-, -, hpairs, -⟩ := hparts ⟨⟨"path", ["i", "o"]⟩⟩ ⟨3, #[[(1, 1)], [(2, 1)], [(1, 2)]]⟩
    ⟨3, #[[(2, 1)], [], [(2, 2), (1, 1)]]⟩ mem_cons_self rfl
  exact ⟨bs, e', hrun, hpairs.trans (by cbv)⟩

end BeliefLogic
