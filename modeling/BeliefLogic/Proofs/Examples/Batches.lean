import BeliefLogic.Proofs.Dictionary
import BeliefLogic.Proofs.Matrix.Storage
import BeliefLogic.Proofs.Outcome
import BeliefLogic.Learning.Learner

/-!
# Minibatches

Whatever the order of the modes, the minibatches of a mode, put on top of each other, are its
examples again.
-/

namespace BeliefLogic

open Outcome Run List

variable {is : List ℕ}

/-- Pieces of a size, one after the other, up to the end. -/
def pieces {β : Type} (size count : ℕ) (l : List β) : List (List β) :=
  (List.range count).map fun j => (l.drop (j * size)).take size

theorem pieces_succ {β : Type} (size count : ℕ) (l : List β) :
    pieces size (count + 1) l = l.take size :: pieces size count (l.drop size) := by
  simp only [pieces, range_succ_eq_map, map_cons, map_map, Nat.zero_mul,
    drop_zero, List.cons.injEq, true_and]
  refine map_congr_left fun j _ => ?_
  rw [Function.comp_apply, drop_drop, Nat.succ_mul, Nat.add_comm]

theorem flatten_pieces {β : Type} {size count : ℕ} {l : List β} (h : l.length ≤ count * size) :
    (pieces size count l).flatten = l := by
  induction count generalizing l with
  | zero =>
    rw [Nat.zero_mul] at h
    rw [length_eq_zero_iff.1 (Nat.le_zero.1 h)]
    rfl
  | succ count ih =>
    rw [pieces_succ, flatten_cons, ih, take_append_drop]
    rw [length_drop, Nat.succ_mul] at *
    omega

namespace Examples

variable {β γ : Type}
variable {groups : List (List β)}

theorem drawn_map (f : β → γ) (is : List ℕ) (groups : List (List β)) :
    drawn is (groups.map (List.map f)) = (drawn is groups).map f := by
  fun_induction drawn is groups with
  | case1 => rfl
  | case2 i is groups b rest hg ih => simp [drawn, hg, ← ih, map_set]
  | case3 i is groups hg ih =>
    rw [drawn, getElem?_map, ih]
    rcases hi : groups[i]? with _ | _ | ⟨b, rest⟩
    · rfl
    · rfl
    · exact (hg b rest hi).elim

/-- Every group has a turn for each of its members. -/
theorem count_turns (groups : List (List β)) (i : ℕ) :
    (turns groups).count i = (groups[i]?.getD []).length := by
  have key (k : ℕ) : ((groups.zipIdx k).flatMap fun g => List.replicate g.1.length g.2).count i =
      if k ≤ i then (groups[i - k]?.getD []).length else 0 := by
    induction groups generalizing k with
    | nil => simp
    | cons g groups ih =>
      rw [zipIdx_cons, flatMap_cons, count_append, ih, count_replicate]
      rcases lt_trichotomy k i with h | rfl | h
      · have hsub : i - k = i - (k + 1) + 1 := by omega
        simp [h.ne, h.le, Nat.succ_le_of_lt h, hsub]
      · simp
      · simp [h.ne', h.not_ge, show ¬k + 1 ≤ i by omega]
  simpa [turns] using key 0

/-- A group with as many turns as members keeps their order. -/
theorem filter_drawn {p : β → Bool} {j : ℕ}
    (hp : ∀ i g, groups[i]? = some g → ∀ b ∈ g, p b = decide (i = j))
    (hcount : is.count j = (groups[j]?.getD []).length) :
    (drawn is groups).filter p = groups[j]?.getD [] := by
  fun_induction drawn is groups with
  | case1 groups => exact (length_eq_zero_iff.1 hcount.symm).symm
  | case2 i is groups b rest hg ih =>
    have hlt : i < groups.length := (List.getElem?_eq_some_iff.1 hg).1
    have hset (k : ℕ) : (groups.set i rest)[k]? = if i = k then some rest else groups[k]? := by
      simp [getElem?_set, hlt]
    have hrest := ih (fun k g hk c hc => ?_) ?_
    · rw [filter_cons, hp i _ hg b mem_cons_self, hrest, hset]
      by_cases hij : i = j
      · simp [hij, hij ▸ hg]
      · simp [hij]
    · rw [hset] at hk
      split at hk
      · next hik =>
        obtain rfl := Option.some.inj hk
        exact hik ▸ hp i _ hg c (mem_cons_of_mem b hc)
      · exact hp k g hk c hc
    · rw [hset]
      by_cases hij : i = j
      · simpa [hij, hij ▸ hg] using hcount
      · simpa [hij] using hcount
  | case3 i is groups hg ih =>
    refine ih hp ?_
    by_cases hij : i = j
    · subst hij
      rcases hi : groups[i]? with _ | _ | ⟨b, rest⟩
      · simp [hi] at hcount
      · simp [hi] at hcount
      · exact (hg b rest hi).elim
    · simpa [hij] using hcount

theorem forall_mem_drawn {Q : β → Prop} (h : ∀ g ∈ groups, ∀ b ∈ g, Q b) :
    ∀ b ∈ drawn is groups, Q b := by
  fun_induction drawn is groups with
  | case1 => simp
  | case2 i is groups b rest hg ih =>
    have hmem := mem_of_getElem? hg
    refine forall_mem_cons.2 ⟨h _ hmem b mem_cons_self, ih fun g hgm c hc => ?_⟩
    rcases mem_or_eq_of_mem_set hgm with hgm | rfl
    · exact h g hgm c hc
    · exact h _ hmem c (mem_cons_of_mem b hc)
  | case3 i is groups hg ih => exact ih h

end Examples

namespace Matrix

variable {α : Type}

theorem itemAt_rowStarts (m : Matrix α) {k : ℕ} (hk : k ≤ m.height) :
    itemAt m.rowStarts k = .ok (m.rows.toList.take k).flatten.length := by
  have hlt : k < m.rows.toList.length + 1 := Nat.lt_succ_of_le hk
  have hlength : m.rowStarts.length = m.rows.toList.length + 1 := m.stores_storage.size_starts
  have hget : m.rowStarts[k]? = some (m.rows.toList.take k).flatten.length := by
    rw [show m.rowStarts = _ from m.stores_storage.starts, getElem?_map, getElem?_range hlt,
      Option.map_some]
  rw [itemAt, position?_natCast (hlength ▸ hlt), Option.bind_some, hget]

def piece (m : Matrix α) (lo size : ℕ) : Matrix α := ⟨m.width, m.rows.extract lo (lo + size)⟩

theorem toList_piece (m : Matrix α) (lo size : ℕ) :
    (m.piece lo size).rows.toList = (m.rows.toList.drop lo).take size := by
  simp [piece]

theorem slice_eq (m : Matrix α) {lo size : ℕ} (hlo : lo < m.height) (hsize : 0 < size) :
    m.slice lo (lo + size) = .ok (m.piece lo size) := by
  set hi := min (lo + size) m.height with hhi
  have hmin : min ((lo : ℤ) + size) m.height = (hi : ℕ) := by omega
  have hhigh : hi ≤ m.height := min_le_right _ _
  have hle : (m.rows.toList.take lo).flatten.length ≤ (m.rows.toList.take hi).flatten.length := by
    exact ((take_sublist_take_left (by omega)).flatten).length_le
  have hrows : (m.storage.select lo hi).rows = m.rows.extract lo (lo + size) := by
    rw [(m.stores_storage.select (by omega) hhigh).rows]
    apply Array.ext'
    rw [Array.toList_extract, extract_eq_take_drop, drop_take]
    refine take_eq_take_iff.2 ?_
    simp [height] at *
    omega
  rw [slice, hmin, itemAt_rowStarts m hlo.le, itemAt_rowStarts m hhigh]
  refine then_ok.2 ⟨_, rfl, then_ok.2 ⟨_, rfl, ?_⟩⟩
  rw [if_neg (by omega), if_neg (by omega)]
  have hnonneg (k : ℕ) : ¬((k : ℤ) < 0) := by omega
  simp only [hnonneg, if_false, Int.toNat_natCast, hrows]
  rfl

end Matrix

namespace Examples

variable {α : Type} {e : Examples α} {size : ℕ} {mode : Mode}

/-- For each mode as many rows of inputs as of desired outputs. -/
structure Paired (e : Examples α) : Prop where
  distinct : e.inputs.entries.Pairwise fun a b => (a.1 == b.1) = false
  matrices : ∀ mode x, (mode, x) ∈ e.inputs.entries → ∃ X Y, x = .matrix X ∧
    e.outputs.get? mode = some (.matrix Y) ∧ Y.height = X.height

theorem Paired.get? (h : e.Paired) (hmode : mode ∈ e.modes) :
    ∃ X Y, e.inputs.get? mode = some (.matrix X) ∧ e.outputs.get? mode = some (.matrix Y) ∧
      Y.height = X.height := by
  obtain ⟨⟨_, x⟩, hmem, rfl⟩ := mem_map.1 hmode
  obtain ⟨X, Y, rfl, hY, hheight⟩ := h.matrices _ x hmem
  exact ⟨X, Y, Dictionary.lookup_of_mem h.distinct hmem, hY, hheight⟩

theorem Paired.beq_modes (h : e.Paired) {i j : ℕ} {m m' : Mode} (hi : e.modes[i]? = some m)
    (hj : e.modes[j]? = some m') : (m == m') = decide (i = j) := by
  have hmodes : e.modes.Pairwise fun a b => (a == b) = false := pairwise_map.2 h.distinct
  obtain ⟨hi', rfl⟩ := List.getElem?_eq_some_iff.1 hi
  obtain ⟨hj', rfl⟩ := List.getElem?_eq_some_iff.1 hj
  have hpair := pairwise_iff_getElem.1 hmodes
  rcases lt_trichotomy i j with hlt | rfl | hlt
  · simp [hpair i j hi' hj' hlt, hlt.ne]
  · simp
  · simp [BEq.symm_false (hpair j i hj' hi' hlt), hlt.ne']

def piecesOf (mode : Mode) (x y : Matrix α) (size count : ℕ) : List (Batch α) :=
  (List.range count).map fun j => ⟨mode, x.piece (j * size) size, y.piece (j * size) size⟩

variable [Scalar α]

/-- Batches of a size cover rows, and all but the last are full. -/
theorem batchCount_whole (rows : ℕ) {size : ℕ} (hsize : 0 < size) :
    ∃ n, batchCount rows (.whole size : Amount α) = .ok n ∧ rows ≤ n * size ∧
      ∀ j < n, j * size < rows := by
  -- With a rest `r` less than the size, `n` batches hold `rows + r` rows.
  have hpos : (0 : ℤ) < size := by exact_mod_cast hsize
  have hfdiv : (-(rows : ℤ)).fdiv size = -(rows : ℤ) / size := Int.fdiv_eq_ediv_of_nonneg _ hpos.le
  have hdiv := Int.mul_ediv_add_emod (-(rows : ℤ)) size
  have hlow := Int.emod_nonneg (-(rows : ℤ)) hpos.ne'
  have hhigh := Int.emod_lt_of_pos (-(rows : ℤ)) hpos
  set q := -(rows : ℤ) / size
  have hq : q ≤ 0 := Int.ediv_nonpos_of_nonpos_of_neg (by omega) hpos
  obtain ⟨n, hn⟩ := Int.eq_ofNat_of_zero_le (neg_nonneg.2 hq)
  have hprod : (n : ℤ) * size = rows + -(rows : ℤ) % size := by
    rw [← hn]
    linarith
  refine ⟨n, ?_, ?_, fun j hj => ?_⟩
  · rw [batchCount, if_neg hpos.ne', hfdiv, hn]
    rfl
  · have : (rows : ℤ) ≤ n * size := by omega
    exact_mod_cast this
  · have hle : ((j : ℤ) + 1) * size ≤ n * size :=
      Int.mul_le_mul_of_nonneg_right (by omega) hpos.le
    have : (j : ℤ) * size < rows := by linarith
    exact_mod_cast this

theorem batchesFrom_whole {x y : Matrix α} (hxy : y.height = x.height) (mode : Mode) {size : ℕ}
    (hsize : 0 < size) (n lo : ℕ) (hn : ∀ j < n, lo + j * size < x.height) :
    batchesFrom (.ok x) (.ok y) mode (.whole size) n lo = (List.range n).map fun j =>
      .ok ⟨mode, x.piece (lo + j * size) size, y.piece (lo + j * size) size⟩ := by
  induction n generalizing lo with
  | zero => rfl
  | succ n ih =>
    have hlo : lo < x.height := by simpa using hn 0 (Nat.succ_pos n)
    have hnext : ((lo : ℤ) + (size : ℤ)).toNat = lo + size := by omega
    have hrest := ih (lo + size) fun j hj => by
      have := hn (j + 1) (by omega)
      rw [Nat.succ_mul] at this
      omega
    rw [batchesFrom, range_succ_eq_map, map_cons, map_map]
    simp only [hnext, hrest]
    refine congrArg₂ List.cons ?_ (map_congr_left fun j _ => ?_)
    · have hlo' : lo < y.height := by rw [hxy]; exact hlo
      exact then_ok.2 ⟨_, x.slice_eq hlo hsize, then_ok.2
        ⟨_, y.slice_eq hlo' hsize, by simp⟩⟩
    · simp [Nat.succ_mul, Nat.add_assoc, Nat.add_comm size]

/-- The examples of a mode and the number of their pieces. -/
structure CutInto (e : Examples α) (size : ℕ) (mode : Mode) (X Y : Matrix α) (count : ℕ) : Prop where
  inputs : e.inputs.get? mode = some (.matrix X)
  outputs : e.outputs.get? mode = some (.matrix Y)
  height_eq : Y.height = X.height
  count_eq : batchCount X.height (.whole size : Amount α) = .ok count
  cover : X.height ≤ count * size
  full : ∀ j < count, j * size < X.height

theorem Paired.exists_cutInto (h : e.Paired) (hmode : mode ∈ e.modes) (hsize : 0 < size) :
    ∃ X Y count, e.CutInto size mode X Y count := by
  obtain ⟨X, Y, hX, hY, hheight⟩ := h.get? hmode
  obtain ⟨count, hcount, hcover, hfull⟩ := batchCount_whole (α := α) X.height hsize
  exact ⟨X, Y, count, hX, hY, hheight, hcount, hcover, hfull⟩

/-- The batches of a mode are the pieces of its examples. -/
theorem CutInto.batches_eq {X Y : Matrix α} {count : ℕ} (h : e.CutInto size mode X Y count)
    (hsize : 0 < size) :
    (do
      let x ← e.inputsFor mode
      let n ← batchCount x.height (.whole size : Amount α)
      return batchesFrom (.ok x) (e.outputsFor mode) mode (.whole size) n 0 : Except Error _) =
        .ok ((piecesOf mode X Y size count).map .ok) := by
  have hinputs : e.inputsFor mode = .ok X := by simp [inputsFor, find, h.inputs, Operand.rows]
  have houtputs : e.outputsFor mode = .ok Y := by simp [outputsFor, find, h.outputs, Operand.rows]
  refine then_ok.2 ⟨X, hinputs, then_ok.2 ⟨count, h.count_eq, ?_⟩⟩
  rw [houtputs, batchesFrom_whole h.height_eq mode hsize count 0 (by simpa using h.full)]
  simp [piecesOf]

/-- However turns are shuffled, the batches of each mode keep their order. -/
theorem Paired.exists_batches (h : e.Paired) (hne : e.modes ≠ []) (hsize : 0 < size)
    {shuffle : List ℕ → List ℕ} (hshuffle : ∀ l, (shuffle l).Perm l) :
    ∃ bs : List (Batch α), e.batches shuffle (.whole size) = .ok (bs.map .ok) ∧
      (∀ b ∈ bs, b.mode ∈ e.modes) ∧ ∀ mode ∈ e.modes, ∃ X Y count,
        e.CutInto size mode X Y count ∧
          (bs.filter fun b => b.mode == mode) = piecesOf mode X Y size count := by
  have hcut (mode : Mode) (hmode : mode ∈ e.modes) := h.exists_cutInto hmode hsize
  choose! X Y count hcut using hcut
  set f : Mode → List (Batch α) := fun m => piecesOf m (X m) (Y m) size (count m)
  have hof (m : Mode) : ∀ b ∈ f m, b.mode = m := by
    intro b hb
    obtain ⟨j, -, rfl⟩ := mem_map.1 hb
    rfl
  set groups := e.modes.map f
  refine ⟨drawn (shuffle (turns groups)) groups, ?_, ?_, fun mode hmode => ?_⟩
  · have hturns : turns (groups.map (List.map (Except.ok (ε := Error)))) = turns groups := by
      simp [turns, zipIdx_map, flatMap_map]
    rw [batches, if_neg (by simpa using hne)]
    refine then_ok.2 ⟨groups.map (List.map Except.ok), ?_, ?_⟩
    · rw [map_map]
      exact except_mapM_eq fun m hm => (hcut m hm).batches_eq hsize
    · rw [except_pure_ok, hturns, drawn_map]
  · refine forall_mem_drawn fun g hg b hb => ?_
    obtain ⟨m, hm, rfl⟩ := mem_map.1 hg
    exact hof m b hb ▸ hm
  · obtain ⟨j, hj⟩ := mem_iff_getElem?.1 hmode
    have hone : ∀ i g, groups[i]? = some g → ∀ b ∈ g, (b.mode == mode) = decide (i = j) := by
      intro i g hg b hb
      rw [getElem?_map, Option.map_eq_some_iff] at hg
      obtain ⟨m, hm, rfl⟩ := hg
      rw [hof m b hb, h.beq_modes hm hj]
    refine ⟨_, _, _, hcut mode hmode, ?_⟩
    rw [filter_drawn hone (((hshuffle _).count_eq j).trans (count_turns groups j)), getElem?_map, hj]
    rfl

end Examples

end BeliefLogic
