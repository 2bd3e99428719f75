import BeliefLogic.Proofs.Matrix.Softmax
import BeliefLogic.Proofs.Plan.Success
import BeliefLogic.Proofs.Plan.Vectors

/-!
# Plans that work row by row

A plan that keeps single rows apart from rows for each input works row by row.
-/

namespace BeliefLogic

open Outcome Run Bindings List

variable {α : Type}
variable {r m M X : Matrix α} {x : ℕ → Matrix α}

/-- Whether the value of a step has a row for each input. -/
def Step.isFull (full : String → Bool) : Step → Bool
  | .act _ a => a.isFull full
  | .call _ x _ _ _ => full x

/-- Which variables have a row for each input after a step. -/
def Step.fill (full : String → Bool) (t : Step) : String → Bool :=
  Function.update full t.target (t.isFull full)

mutual

/-- The result of a plan has a row for each row of its input. -/
def Plan.Rowwise : Plan → Prop
  | .null _ _ => True
  | .log _ _ => False
  | .softmax _ p => Plan.Rowwise p
  | .sum _ ps => Plan.AllRowwise ps
  | .sequence _ xs y ss _ => ∃ u, xs = [u] ∧ Step.AllRowwise (fun x => x == u) ss y

/-- The results of plans have a row for each row of their input. -/
def Plan.AllRowwise : List Plan → Prop
  | [] => True
  | p :: ps => Plan.Rowwise p ∧ Plan.AllRowwise ps

/-- A step works row by row, given how many rows its variables have. -/
def Step.Rowwise (full : String → Bool) : Step → Prop
  | .act _ a => a.Aligned full
  | .call _ _ _ _ p => Plan.Rowwise p

/-- Steps work row by row and bind a variable to a row for each input. -/
def Step.AllRowwise (full : String → Bool) : List Step → String → Prop
  | [], y => full y = true
  | t :: ts, y => Step.Rowwise full t ∧ Step.AllRowwise (t.fill full) ts y

end

theorem Plan.allRowwise_iff {ps : List Plan} : Plan.AllRowwise ps ↔ ∀ p ∈ ps, p.Rowwise := by
  induction ps with
  | nil => simp [Plan.AllRowwise]
  | cons p ps ih => simp [Plan.AllRowwise, ih]

theorem Step.fill_bare (full : String → Bool) (t : Step) : t.bare.fill full = t.fill full := by
  cases t <;> rfl

mutual

/-- Whether a plan works row by row does not depend on numbers and types. -/
theorem Plan.rowwise_bare : ∀ p : Plan, p.bare.Rowwise ↔ p.Rowwise
  | .null _ _ => .rfl
  | .log _ _ => .rfl
  | .softmax _ p => Plan.rowwise_bare p
  | .sum _ ps => Plan.allRowwise_bareAll ps
  | .sequence _ _ _ ss _ =>
    exists_congr fun _ => and_congr_right fun _ => Step.allRowwise_bareAll ss _ _

theorem Plan.allRowwise_bareAll : ∀ ps : List Plan,
    Plan.AllRowwise (Plan.bareAll ps) ↔ Plan.AllRowwise ps
  | [] => .rfl
  | p :: ps => and_congr (Plan.rowwise_bare p) (Plan.allRowwise_bareAll ps)

theorem Step.rowwise_bare : ∀ (t : Step) (full : String → Bool), t.bare.Rowwise full ↔ t.Rowwise full
  | .act _ _, _ => .rfl
  | .call _ _ _ _ p, _ => Plan.rowwise_bare p

theorem Step.allRowwise_bareAll : ∀ (ts : List Step) (full : String → Bool) (y : String),
    Step.AllRowwise full (Step.bareAll ts) y ↔ Step.AllRowwise full ts y
  | [], _, _ => .rfl
  | t :: ts, full, y => by
    have hrest := Step.allRowwise_bareAll ts (t.fill full) y
    rw [← Step.fill_bare] at hrest
    rw [Step.bareAll, Step.AllRowwise, Step.AllRowwise, Step.rowwise_bare t, hrest, Step.fill_bare]

end

theorem Plan.Rowwise.congr {p q : Plan} (hp : p.Rowwise) (h : p.bare = q.bare) : q.Rowwise := by
  rwa [← Plan.rowwise_bare, ← h, Plan.rowwise_bare]

section

variable [ExactScalar α]

/-- What an action computes depends on what it reads. -/
theorem Action.compute_congr {db : Database α} {n : ℕ} {v v' : String → ℕ → α} {a : Action}
    (h : ∀ x ∈ a.reads, v x = v' x) : a.compute db n v = a.compute db n v' := by
  funext k
  cases a with
  | preimage | vector | oneHot | plugin => rfl
  | product source mode transpose => simp [compute, h source (by simp)]
  | hadamard left right =>
    simp [compute, h left (by simp), h right (by simp)]
  | weighted weight row =>
    simp [compute, h weight (by simp), h row (by simp)]

namespace Matrix

variable {h n i : ℕ}

structure IsRow (r m : Matrix α) (n i : ℕ) : Prop where
  shaped : r.Shaped 1 n
  entry_eq : ∀ k, r.entry 0 k = m.spread i k

theorem IsRow.of_entry (hm : m.Shaped h n) (hi : i < h) (hr : r.Shaped 1 n)
    (he : ∀ k, r.entry 0 k = m.entry i k) : r.IsRow m n i :=
  ⟨hr, fun k => (he k).trans (hm.spread_of_lt hi k).symm⟩

theorem IsRow.entry_of_lt (hr : r.IsRow m n i) (hm : m.Shaped h n) (hi : i < h) (k : ℕ) :
    r.entry 0 k = m.entry i k :=
  (hr.entry_eq k).trans (hm.spread_of_lt hi k)

theorem Shaped.isRow_rowMatrix (hm : m.Shaped h n) (hi : i < h) :
    (m.rowMatrix i).IsRow m n i := by
  refine .of_entry hm hi ⟨rfl, hm.width_eq, fun j => ?_⟩ fun k => ?_
  · match j with
    | 0 => exact hm.bounded i
    | j + 1 => exact rowBounded_nil n
  · rw [Matrix.entry_eq, Matrix.entry_eq]
    rfl

theorem exists_foldlM_add (ms : List (Matrix α)) (hm : m.Shaped h n) (hms : ∀ x ∈ ms, x.Shaped h n)
    :
    ∃ p, ms.foldlM Matrix.add m = .ok p ∧ p.Shaped h n ∧
      ∀ i k, p.entry i k = m.entry i k + (ms.map fun x => x.entry i k).sum := by
  induction ms generalizing m with
  | nil => exact ⟨m, rfl, hm, by simp⟩
  | cons x ms ih =>
    obtain ⟨hx, hms⟩ := forall_mem_cons.1 hms
    obtain ⟨q, hq, hqs, hqe, -⟩ := hm.add hx
    obtain ⟨p, hp, hps, hpe⟩ := ih hqs hms
    refine ⟨p, ?_, hps, fun i k => ?_⟩
    · rw [foldlM_cons]
      exact then_ok.2 ⟨q, hq, hp⟩
    · rw [hpe, hqe, map_cons, sum_cons, add_assoc]

/-- The rows of a sum are the sums of rows. -/
theorem foldlM_add_rows (hh : 0 < h) {Ms : List (Matrix α)} {rs : ℕ → List (Matrix α)}
    {m : ℕ → Matrix α}
    (hall : ∀ i < h, Forall₂ (fun M m => M.Shaped h n ∧ m.IsRow M n i) (M :: Ms) (rs i))
    (hsum : ∀ i < h, ∃ r rs', rs i = r :: rs' ∧ rs'.foldlM Matrix.add r = .ok (m i)) :
    ∃ S, Ms.foldlM Matrix.add M = .ok S ∧ S.Shaped h n ∧ ∀ i < h, (m i).IsRow S n i := by
  obtain ⟨hshaped, -⟩ := (forall₂_and_left _ _).1 (hall 0 hh)
  obtain ⟨hM, hMs⟩ := forall_mem_cons.1 hshaped
  obtain ⟨S, hS, hSs, hSe⟩ := exists_foldlM_add Ms hM hMs
  refine ⟨S, hS, hSs, fun i hi => ?_⟩
  obtain ⟨r, rs', hrs, hfold⟩ := hsum i hi
  have hrows := hall i hi
  rw [hrs] at hrows
  obtain ⟨⟨-, hr⟩, hrest⟩ := forall₂_cons.1 hrows
  have hrest' : Forall₂ (fun N N' => N.Shaped 1 n ∧ N.entry 0 = N'.entry i) rs' Ms :=
    (hrest.imp fun N N' hN => ⟨hN.2.shaped, funext (hN.2.entry_of_lt hN.1 hi)⟩).flip
  obtain ⟨hrs', hentries⟩ := (forall₂_and_left _ _).1 hrest'
  obtain ⟨S', hS', hSs', hSe'⟩ := exists_foldlM_add rs' hr.shaped hrs'
  rw [ok_unique hfold hS']
  refine .of_entry hSs hi hSs' fun k => ?_
  have hmap : rs'.map (fun N => N.entry 0 k) = Ms.map fun N => N.entry i k := by
    rw [← forall₂_eq_eq_eq, forall₂_map_left_iff, forall₂_map_right_iff]
    exact hentries.imp fun N N' hN => congrFun hN k
  rw [hSe', hSe, hr.entry_of_lt hM hi, hmap]

end Matrix

/-- What is bound for single rows is bound for the matrix, row by row. -/
structure Bindings.Batch (b : Bindings α) (full : String → Bool) (h n : ℕ) (c : ℕ → Bindings α) :
    Prop where
  rows : b.Rows full h n
  single : ∀ i < h, (c i).Single n
  isRow : ∀ i < h, ∀ x m, (c i).value x = .ok m → ∃ M, b.value x = .ok M ∧ m.IsRow M n i

namespace Bindings.Batch

variable {b : Bindings α} {full : String → Bool} {h n : ℕ} {c : ℕ → Bindings α}

theorem vector_eq (hb : b.Batch full h n c) {i : ℕ} (hi : i < h) {x : String}
    (hx : (c i).IsBound x) : (c i).vector 0 x = b.vector i x := by
  obtain ⟨m, hm⟩ := hx
  obtain ⟨M, hM, hrow⟩ := hb.isRow i hi x m hm
  funext k
  rw [vector_of_value hm, vector_of_value hM, hrow.shaped.spread_single,
    hrow.entry_eq]

/-- Binding a variable to a value and its rows. -/
theorem bind (hb : b.Batch full h n c) (x : String) {f : Bool} {m : ℕ → Matrix α}
    (hM : M.Shaped (if f then h else 1) n) (hm : ∀ i < h, (m i).IsRow M n i) :
    (b.bind x M).Batch (Function.update full x f) h n fun i => (c i).bind x (m i) where
  rows y N hy := by
    rw [value_bind] at hy
    split at hy
    · next heq =>
      obtain rfl := Except.ok.inj hy
      simpa [height, ← heq] using hM
    · next hne => simpa [height, Function.update_of_ne (Ne.symm hne)] using hb.rows y N hy
  single i hi := (hb.single i hi).bind x (hm i hi).shaped
  isRow i hi y N hy := by
    rw [value_bind] at hy ⊢
    split at hy
    · next heq =>
      obtain rfl := Except.ok.inj hy
      exact ⟨M, if_pos heq, hm i hi⟩
    · next hne =>
      rw [if_neg hne]
      exact hb.isRow i hi y N hy

theorem congr (hb : b.Batch full h n c) {c' : ℕ → Bindings α} (hc : ∀ i < h, c i = c' i) :
    b.Batch full h n c' where
  rows := hb.rows
  single i hi := hc i hi ▸ hb.single i hi
  isRow i hi := hc i hi ▸ hb.isRow i hi

end Bindings.Batch

/-- The bindings at the start, for a matrix and its rows. -/
theorem Bindings.batch_start {u : String} {h n : ℕ} (hX : X.Shaped h n)
    (hx : ∀ i < h, (x i).IsRow X n i) :
    (start u X).Batch (fun x => x == u) h n fun i => start u (x i) where
  rows y M hy := by
    obtain ⟨rfl, rfl⟩ := value_start.1 hy
    simpa [height] using hX
  single i hi := single_start (hx i hi).shaped u
  isRow i hi y m hy := by
    obtain ⟨rfl, rfl⟩ := value_start.1 hy
    exact ⟨X, value_start.2 ⟨rfl, rfl⟩, hx i hi⟩

variable {s : Settings α} {db : Database α} {n : ℕ}

/-- The value of an action that was computed for each row. -/
theorem Action.eval_batch (hdb : db.Regular n) (hlimit : s.denseLimit ≠ .undefined)
    {full : String → Bool} {h : ℕ} (hh : 0 < h) {b : Bindings α} {c : ℕ → Bindings α}
    (hb : b.Batch full h n c) {a : Action} (hal : a.Aligned full) {type : Option String}
    {m : ℕ → Matrix α} (hm : ∀ i < h, a.eval s db (c i) type = .ok (m i)) :
    ∃ M, a.eval s db b type = .ok M ∧ M.Shaped (if a.isFull full then h else 1) n ∧
      ∀ i < h, (m i).IsRow M n i := by
  obtain ⟨hfit, hreads⟩ := Action.fits_of_ok hdb (hm 0 hh)
  have hbound : ∀ x ∈ a.reads, b.IsBound x := by
    intro x hx
    obtain ⟨r, hr⟩ := hreads x hx
    obtain ⟨M, hM, -⟩ := hb.isRow 0 hh x r hr
    exact ⟨M, hM⟩
  rcases Action.eval_spec hdb hh hb.rows type hfit hal hbound with ⟨hu, -⟩ | ⟨M, hM, hs, he⟩
  · exact absurd hu hlimit
  · refine ⟨M, hM, hs, fun i hi => ?_⟩
    obtain ⟨hms, hme⟩ := Action.value_of_ok hdb (hb.single i hi) (hm i hi)
    refine ⟨hms, fun k => ?_⟩
    have hreads := (Action.fits_of_ok hdb (hm i hi)).2
    rw [hme, he i hi, Action.compute_congr fun x hx => hb.vector_eq hi (hreads x hx)]

end

section

variable [ExactExponential α] {s : Settings α} {db : Database α} {n : ℕ}

/-- If a plan has results for the rows of a matrix, these are its rows for it. -/
def Plan.BatchesOn (s : Settings α) (db : Database α) (n : ℕ) (p : Plan) (h : ℕ) (X : Matrix α)
    (x : ℕ → Matrix α) : Prop :=
  ∀ m : ℕ → Matrix α, (∀ i < h, (x i).IsRow X n i ∧ p.result s db [x i] = .ok (m i)) →
    ∃ M, Ends s (Plan.eval db [X] p) M ∧ M.Shaped h n ∧ ∀ i < h, (m i).IsRow M n i

theorem Plan.BatchesOn.softmax (hdb : db.Regular n) (hlimit : s.denseLimit ≠ .undefined)
    {i : PlanInfo} {p : Plan} (htold : (Plan.softmax i p).Meets (.told s)) {h : ℕ} (hh : 0 < h)
    (hX : X.Shaped h n) (hp : p.BatchesOn s db n h X x) :
    (Plan.softmax i p).BatchesOn s db n h X x := by
  intro m hrows
  have hinner (i : ℕ) (hi : i < h) := then_ok.1 (hrows i hi).2
  choose! r hr using hinner
  obtain ⟨M, hM, hMs, hMr⟩ := hp r fun i hi => ⟨(hrows i hi).1, (hr i hi).1⟩
  have hsoft (i : ℕ) (hi : i < h) := (hMr i hi).shaped.of_softmax_ok (hr i hi).2
  have hscores (i : ℕ) (hi : i < h) : (r i).scores 0 = M.scores i := by
    funext k
    rw [Matrix.scores, Matrix.scores, (hMr i hi).entry_of_lt hMs hi]
  obtain ⟨N, P, hN, hP, hPs, hPe⟩ := hMs.softmax hh (hsoft 0 hh).1
    (fun i hi => hscores i hi ▸ (hsoft i hi).2.1) hlimit
  refine ⟨P, ?_, hPs, fun i hi => ?_⟩
  · simp only [Plan.eval]
    refine ends_invoked hdb htold.1 (by simpa using ⟨h, hX⟩) (hM.bind ?_) hPs
    exact ends_settings.bind ((ends_lift hN).bind (ends_reportCopy.bind (ends_lift hP)))
  · obtain ⟨hw, hsc, -⟩ := hsoft i hi
    obtain ⟨N', P', hN', hP', hPs', hPe'⟩ := (hMr i hi).shaped.softmax one_pos hw
      (fun j hj => by rwa [show j = 0 by omega]) hlimit
    have hm : m i = P' := by
      have : (r i).softmax s.denseLimit = .ok P' := then_ok.2 ⟨N', hN', hP'⟩
      exact ok_unique (hr i hi).2 this
    rw [hm]
    refine .of_entry hPs hi hPs' fun k => ?_
    rw [hPe' 0 one_pos, hPe i hi, hscores i hi]

mutual

theorem Plan.Rowwise.batches (hdb : db.Regular n) (hlimit : s.denseLimit ≠ .undefined) :
    ∀ p : Plan, p.Meets (.told s) → p.Rowwise → ∀ (h : ℕ) (X : Matrix α) (x : ℕ → Matrix α), 0 < h →
      X.Shaped h n → p.BatchesOn s db n h X x
  | .null i mode, htold, _, h, X, x, hh, hX => by
    intro m hrows
    refine ⟨Matrix.empty h n, ?_, Matrix.shaped_empty h n, fun i hi => ?_⟩
    · simp only [Plan.eval]
      refine ends_invoked hdb htold (by simpa using ⟨h, hX⟩) (ends_lift ?_)
        (Matrix.shaped_empty h n)
      rw [hdb.zeros_eq, hX.height_eq]
    · obtain ⟨hx, hm⟩ := hrows i hi
      have hm : db.zeros (x i).height _ = .ok (m i) := hm
      rw [hdb.zeros_eq, hx.shaped.height_eq] at hm
      rw [← Except.ok.inj hm]
      exact .of_entry (Matrix.shaped_empty h n) hi (Matrix.shaped_empty 1 n) (by simp)
  | .log i p, _, hrow, _, _, _, _, _ => hrow.elim
  | .softmax i p, htold, hrow, h, X, x, hh, hX =>
    .softmax hdb hlimit htold hh hX (Plan.Rowwise.batches hdb hlimit p htold.2 hrow h X x hh hX)
  | .sum i ps, htold, hrow, h, X, x, hh, hX => by
    intro m hrows
    have hinner (i : ℕ) (hi : i < h) : ∃ rs, Plan.results s db [x i] ps = .ok rs ∧
        ∃ r rs', rs = r :: rs' ∧ rs'.foldlM Matrix.add r = .ok (m i) := by
      obtain ⟨rs, hrs, hm⟩ := then_ok.1 (hrows i hi).2
      cases rs with
      | nil => cases hm
      | cons r rs => exact ⟨_, hrs, r, rs, rfl, hm⟩
    choose! rs hrs hsum using hinner
    obtain ⟨Ms, hMs, hall⟩ := Plan.AllRowwise.batches hdb hlimit ps htold.2 hrow h X x rs hh hX
      fun i hi => ⟨(hrows i hi).1, hrs i hi⟩
    cases Ms with
    | nil =>
      obtain ⟨r, rs', hr, -⟩ := hsum 0 hh
      have := hall 0 hh
      rw [hr] at this
      cases this
    | cons M Ms =>
      obtain ⟨S, hS, hSs, hSr⟩ := Matrix.foldlM_add_rows hh hall hsum
      refine ⟨S, ?_, hSs, hSr⟩
      simp only [Plan.eval]
      exact ends_invoked hdb htold.1 (by simpa using ⟨h, hX⟩) (hMs.bind (ends_lift hS)) hSs
  | .sequence i xs y ss r, htold, hrow, h, X, x, hh, hX => by
    intro m hrows
    obtain ⟨u, rfl, hrow⟩ := hrow
    have hsteps (j : ℕ) (hj : j < h) := then_ok.1 (hrows j hj).2
    choose! c' hc' using hsteps
    obtain ⟨b', full', hb', hbatch, hy⟩ := Step.AllRowwise.batches hdb hlimit ss htold.2 _ y hrow h
      (start u X) (fun j => start u (x j)) c' hh (batch_start hX fun j hj => (hrows j hj).1)
      fun j hj => (hc' j hj).1
    obtain ⟨M, hM, -⟩ := hbatch.isRow 0 hh y (m 0) (hc' 0 hh).2
    have hMs : M.Shaped h n := by simpa [height, hy] using hbatch.rows y M hM
    refine ⟨M, ?_, hMs, fun j hj => ?_⟩
    · obtain ⟨id, hid⟩ := Option.isSome_iff_exists.1 htold.1.1
      have hid : i.id = some id := hid
      simp only [Plan.eval]
      refine ends_invoked hdb htold.1 (by simpa using ⟨h, hX⟩) ?_ hMs
      rw [hid]
      exact (ends_requireId id).bind <| (ends_require rfl _).bind <| hb'.bind <|
        (ends_changeCell id _).bind (ends_lift hM)
    · obtain ⟨M', hM', hrow⟩ := hbatch.isRow j hj y (m j) (hc' j hj).2
      rwa [ok_unique hM hM']

theorem Plan.AllRowwise.batches (hdb : db.Regular n) (hlimit : s.denseLimit ≠ .undefined) :
    ∀ ps : List Plan, Plan.AllMeet (.told s) ps → Plan.AllRowwise ps →
    ∀ (h : ℕ) (X : Matrix α) (x : ℕ → Matrix α) (ms : ℕ → List (Matrix α)), 0 < h → X.Shaped h n →
    (∀ i < h, (x i).IsRow X n i ∧ Plan.results s db [x i] ps = .ok (ms i)) →
    ∃ Ms, Ends s (Plan.evalAll db [X] ps) Ms ∧
      ∀ i < h, Forall₂ (fun M m => M.Shaped h n ∧ m.IsRow M n i) Ms (ms i)
  | [], _, _ => by
    intro h X x ms hh hX hrows
    refine ⟨[], ends_pure, fun i hi => ?_⟩
    have hms : [] = ms i := by simpa [Plan.results] using (hrows i hi).2
    rw [← hms]
    exact .nil
  | p :: ps, htold, hrow => by
    intro h X x ms hh hX hrows
    have hparts (i : ℕ) (hi : i < h) := (hrows i hi).2
    simp only [Plan.results, then_ok, except_pure_ok] at hparts
    choose! m hm ms' hms' heq using hparts
    obtain ⟨M, hM, hMs, hMr⟩ := Plan.Rowwise.batches hdb hlimit p htold.1 hrow.1 h X x hh hX m
      fun i hi => ⟨(hrows i hi).1, hm i hi⟩
    obtain ⟨Ms, hMs', hall⟩ := Plan.AllRowwise.batches hdb hlimit ps htold.2 hrow.2 h X x ms' hh hX
      fun i hi => ⟨(hrows i hi).1, hms' i hi⟩
    refine ⟨M :: Ms, hM.bind (hMs'.bind ends_pure), fun i hi => ?_⟩
    rw [← heq i hi]
    exact .cons ⟨hMs, hMr i hi⟩ (hall i hi)

theorem Step.Rowwise.batches (hdb : db.Regular n) (hlimit : s.denseLimit ≠ .undefined) :
    ∀ t : Step, t.Meets (.told s) → ∀ full, t.Rowwise full →
    ∀ (h : ℕ) (b : Bindings α) (c : ℕ → Bindings α) (m : ℕ → Matrix α), 0 < h →
    b.Batch full h n c → (∀ i < h, t.result s db (c i) = .ok (m i)) →
    ∃ M, Ends s (Step.eval db t b) (b.bind t.target M) ∧
      M.Shaped (if t.isFull full then h else 1) n ∧ ∀ i < h, (m i).IsRow M n i
  | .act i a, htold, full, hrow => by
    intro h b c m hh hb hm
    obtain ⟨M, hM, hMs, hMr⟩ := Action.eval_batch hdb hlimit hh hb hrow hm
    refine ⟨M, ?_, hMs, hMr⟩
    refine ends_evaluated hdb htold ?_ (by rw [value_bind]; exact if_pos rfl) hMs
    exact (ends_reportAction b a).bind <| ends_settings.bind <| (ends_lift hM).bind ends_pure
  | .call i x mode d p, htold, full, hrow => by
    intro h b c m hh hb hm
    have hsource (j : ℕ) (hj : j < h) := then_ok.1 (hm j hj)
    choose! r hr using hsource
    obtain ⟨X, hX, -⟩ := hb.isRow 0 hh x (r 0) (hr 0 hh).1
    have hXr (j : ℕ) (hj : j < h) : (r j).IsRow X n j := by
      obtain ⟨X', hX', hrow⟩ := hb.isRow j hj x (r j) (hr j hj).1
      rwa [ok_unique hX hX']
    have hXs : X.Shaped (height full h x) n := hb.rows x X hX
    have hp := Plan.Rowwise.batches hdb hlimit p htold.2 hrow
    obtain ⟨M, hM, hMs, hMr⟩ : ∃ M, Ends s (Plan.eval db [X] p) M ∧
        M.Shaped (if full x then h else 1) n ∧ ∀ j < h, (m j).IsRow M n j := by
      cases hx : full x with
      | true =>
        rw [height, hx] at hXs
        exact hp h X r hh hXs m fun j hj => ⟨hXr j hj, (hr j hj).2⟩
      | false =>
        -- A single row stands for all rows, so every row gives the same result.
        rw [height, hx] at hXs
        have hone (j : ℕ) (hj : j < h) := hp 1 X (fun _ => r j) one_pos hXs (fun _ => m j)
          fun k hk => ⟨⟨(hXr j hj).shaped, fun l => by
            rw [(hXr j hj).entry_eq, hXs.spread_single,
              hXs.spread_single]⟩, (hr j hj).2⟩
        obtain ⟨M, hM, hMs, -⟩ := hone 0 hh
        refine ⟨M, hM, hMs, fun j hj => ?_⟩
        obtain ⟨M', hM', hMs', hrow'⟩ := hone j hj
        obtain rfl := hM.unique hM'
        refine ⟨(hrow' 0 one_pos).shaped, fun l => ?_⟩
        rw [(hrow' 0 one_pos).entry_eq, hMs.spread_single,
          hMs.spread_single]
    refine ⟨M, ?_, hMs, hMr⟩
    refine ends_evaluated hdb htold.1 ?_ (by rw [value_bind]; exact if_pos rfl) hMs
    exact (ends_lift hX).bind (hM.bind ends_pure)

theorem Step.AllRowwise.batches (hdb : db.Regular n) (hlimit : s.denseLimit ≠ .undefined) :
    ∀ ts : List Step, Step.AllMeet (.told s) ts → ∀ full y, Step.AllRowwise full ts y →
    ∀ (h : ℕ) (b : Bindings α) (c c' : ℕ → Bindings α), 0 < h → b.Batch full h n c →
    (∀ i < h, Step.bindAll s db ts (c i) = .ok (c' i)) →
    ∃ b' full', Ends s (Step.evalAll db ts b) b' ∧ b'.Batch full' h n c' ∧ full' y = true
  | [], _, full, y, hrow => by
    intro h b c c' hh hb hc
    have heq (i : ℕ) (hi : i < h) : c i = c' i := by simpa [Step.bindAll] using hc i hi
    exact ⟨b, full, ends_pure, hb.congr heq, hrow⟩
  | t :: ts, htold, full, y, hrow => by
    intro h b c c' hh hb hc
    have hparts (i : ℕ) (hi : i < h) := then_ok.1 (hc i hi)
    choose! m hparts using hparts
    obtain ⟨M, hM, hMs, hMr⟩ := Step.Rowwise.batches hdb hlimit t htold.1 full hrow.1 h b c m hh hb
      fun i hi => (hparts i hi).1
    obtain ⟨b', full', hb', hbatch, hy⟩ := Step.AllRowwise.batches hdb hlimit ts htold.2
      (t.fill full) y hrow.2 h (b.bind t.target M) (fun i => (c i).bind t.target (m i)) c' hh
      (hb.bind t.target hMs hMr) fun i hi => (hparts i hi).2
    exact ⟨b', full', hM.bind hb', hbatch, hy⟩

end

end

end BeliefLogic
