import BeliefLogic.Proofs.Matrix.Broadcast
import BeliefLogic.Proofs.Plan.Equations

/-!
# Actions on vectors

Over a regular database an action on matrices computes vectors row by row.
-/

namespace BeliefLogic

open Outcome Bindings

variable {α : Type} [ExactScalar α] {b : Bindings α} {m : Matrix α} {n : ℕ} {a : Action}
  {db : Database α} {s : Settings α}

namespace Action

/-- The vector that an action computes from vectors of a length. -/
def compute (db : Database α) (n : ℕ) (v : String → ℕ → α) : Action → ℕ → α
  | .preimage mode, k => ∑ i ∈ Finset.range n, db.carried mode true i k
  | .vector mode, k => db.rowWeight mode.functor k
  | .oneHot _ constant, k => if db.idOf? constant = some k then 1 else 0
  | .product source mode transpose, k =>
    ∑ i ∈ Finset.range n, v source i * db.carried mode transpose i k
  | .plugin _ _, _ => 0
  | .hadamard left right, k => v left k * v right k
  | .weighted weight row, k => v row k * ∑ j ∈ Finset.range n, v weight j

def Fits (db : Database α) : Action → Prop
  | .preimage mode => ∃ m, db.preimage mode = .ok m
  | .vector mode => ∃ x, db.rowOperand mode = .ok x
  | .oneHot _ constant => ∃ a, db.idOf? constant = some a
  | .product _ mode transpose => ∃ x, db.operand mode transpose = .ok x
  | .plugin _ _ => False
  | .hadamard _ _ => True
  | .weighted _ _ => True

@[simp] def reads : Action → List String
  | .preimage _ | .vector _ | .oneHot _ _ => []
  | .product source _ _ => [source]
  | .plugin sources _ => sources
  | .hadamard left right => [left, right]
  | .weighted weight row => [weight, row]

/-- A row for each input on the right needs one on the left. -/
def Aligned (full : String → Bool) : Action → Prop
  | .hadamard left right => full right = true → full left = true
  | _ => True

/-- Whether the value has a row for each input. -/
@[simp] def isFull (full : String → Bool) (a : Action) : Bool := a.reads.any full

end Action

namespace Bindings

def height (full : String → Bool) (h : ℕ) (x : String) : ℕ := if full x then h else 1

/-- Every variable has a row for each input, or a single row, as is known. -/
def Rows (b : Bindings α) (full : String → Bool) (h n : ℕ) : Prop :=
  ∀ x m, b.value x = .ok m → m.Shaped (height full h x) n

def vector (b : Bindings α) (i : ℕ) (x : String) (k : ℕ) : α :=
  match b.value x with
  | .ok m => m.spread i k
  | .error _ => 0

theorem vector_of_value {x : String} (h : b.value x = .ok m) (i : ℕ) :
    b.vector i x = m.spread i := by
  funext k
  simp [vector, h]

/-- Every bound variable has a single row. -/
abbrev Single (b : Bindings α) (n : ℕ) : Prop := b.Rows (fun _ => true) 1 n

theorem Rows.vector_eq (hb : b.Single n) {x : String} (hm : b.value x = .ok m) :
    b.vector 0 x = m.entry 0 := by
  rw [vector_of_value hm]
  exact funext ((hb x m hm).spread_single 0)

omit [ExactScalar α] in
theorem single_start (hm : m.Shaped 1 n) (u : String) : (start u m).Single n := by
  intro y m' hy
  obtain ⟨-, rfl⟩ := value_start.1 hy
  exact hm

omit [ExactScalar α] in
theorem Rows.bind (hb : b.Single n) (x : String) (hm : m.Shaped 1 n) : (b.bind x m).Single n := by
  intro y m' hy
  rw [value_bind] at hy
  split at hy
  · obtain rfl := Except.ok.inj hy
    exact hm
  · exact hb y m' hy

end Bindings

theorem Matrix.spread_eq {p : Matrix α} {h : ℕ} (hm : m.Shaped h n) (hp : p.Shaped h n)
    {f : (ℕ → α) → ℕ → α} (he : ∀ r k, p.entry r k = f (m.entry r) k) (i k : ℕ) :
    p.spread i k = f (m.spread i) k := by
  have : m.spread i = m.entry (if h = 1 then 0 else i) := by
    funext k
    rw [Matrix.spread, hm.height_eq]
  rw [this, Matrix.spread, hp.height_eq, he]

namespace Action

/-- The value is computed row by row, unless the limit is no number. -/
def IsRowwise (s : Settings α) (db : Database α) (b : Bindings α) (full : String → Bool) (h n : ℕ)
    (type : Option String) (a : Action) : Prop :=
  (s.denseLimit = .undefined ∧ a.eval s db b type = .error .illTyped) ∨
    ∃ m, a.eval s db b type = .ok m ∧ m.Shaped (if a.isFull full then h else 1) n ∧
      ∀ i < h, ∀ k, m.spread i k = a.compute db n (b.vector i) k

variable {h : ℕ} {full : String → Bool} {type : Option String}

theorem isRowwise_of_row (hreads : a.reads = []) (hm : a.eval s db b type = .ok m)
    (hs : m.Shaped 1 n) (he : ∀ i k, m.entry 0 k = a.compute db n (b.vector i) k) :
    a.IsRowwise s db b full h n type := by
  refine .inr ⟨m, hm, ?_, fun i _ k => by rw [hs.spread_single, he]⟩
  rwa [isFull, hreads, List.any_nil, if_neg Bool.false_ne_true]

theorem isRowwise_hadamard {left right : String} {l r : Matrix α} (hb : b.Rows full h n)
    (hal : (hadamard left right).Aligned full) (hl : b.value left = .ok l)
    (hr : b.value right = .ok r) : (hadamard left right).IsRowwise s db b full h n type := by
  have hlr : height full h right = height full h left ∨ height full h right = 1 := by
    unfold height
    cases hfr : full right with
    | false => exact .inr rfl
    | true =>
      left
      rw [hal hfr]
  have hheight : (if (hadamard left right).isFull full then h else 1) =
      height full h left := by
    cases hfl : full left with
    | true => simp [height, hfl]
    | false =>
      have hfr : full right = false := by
        rw [← Bool.not_eq_true]
        exact fun hfr => by simp [hal hfr] at hfl
      simp [height, hfl, hfr]
  simp only [IsRowwise, eval, hl, hr, ok_bind, hheight]
  rcases (hb _ _ hl).broadcastMultiply (hb _ _ hr) hlr s.denseLimit with
    ⟨-, hu, he⟩ | ⟨p, hp, hps, hpe⟩
  · exact .inl ⟨hu, he⟩
  · refine .inr ⟨p, hp, hps, fun i hi k => ?_⟩
    simp only [compute, vector_of_value hl, vector_of_value hr]
    by_cases hone : height full h left = 1
    · have hone' : height full h right = 1 := by omega
      rw [Matrix.spread_of_height_one (hps.height_eq.trans hone),
        Matrix.spread_of_height_one ((hb _ _ hl).height_eq.trans hone), hpe,
        Matrix.spread_of_height_one ((hb _ _ hr).height_eq.trans hone'),
        Matrix.spread_of_height_one ((hb _ _ hr).height_eq.trans hone')]
    · rw [Matrix.spread, Matrix.spread, hps.height_eq, (hb _ _ hl).height_eq, if_neg hone, hpe]

theorem isRowwise_weighted {weight row : String} {w r : Matrix α} (hh : 0 < h)
    (hb : b.Rows full h n) (hw : b.value weight = .ok w) (hr : b.value row = .ok r) :
    (weighted weight row).IsRowwise s db b full h n type := by
  have hpos (x : String) : 0 < height full h x := by
    unfold height
    split <;> omega
  have hlr : height full h row = height full h weight ∨ height full h row = 1 ∨
      height full h weight = 1 := by
    unfold height
    cases full row <;> cases full weight <;> simp
  have hheight : (if (weighted weight row).isFull full then h else 1) =
      max (height full h row) (height full h weight) := by
    unfold height
    cases hfr : full row <;> cases hfw : full weight <;>
      simp [hfr, hfw] <;> omega
  simp only [IsRowwise, eval, hw, hr, ok_bind, hheight]
  rcases (hb _ _ hr).weighted (hb _ _ hw) hlr ⟨hpos _, hpos _⟩ s.denseWeighting s.denseLimit with
    ⟨-, hu, he⟩ | ⟨p, hp, hps, hpe⟩
  · exact .inl ⟨hu, he⟩
  · refine .inr ⟨p, hp, hps, fun i hi k => ?_⟩
    simp only [compute, vector_of_value hw, vector_of_value hr]
    by_cases hone : max (height full h row) (height full h weight) = 1
    · have hr1 : height full h row = 1 := by have := hpos row; omega
      have hw1 : height full h weight = 1 := by have := hpos weight; omega
      rw [Matrix.spread_of_height_one (hps.height_eq.trans hone), hpe 0 (by omega)]
      simp only [Matrix.spread_of_height_one ((hb _ _ hr).height_eq.trans hr1),
        Matrix.spread_of_height_one ((hb _ _ hw).height_eq.trans hw1)]
    · have hmax : max (height full h row) (height full h weight) = h := by
        unfold height at hone ⊢
        cases hfr : full row <;> cases hfw : full weight <;> simp [hfr, hfw] at hone ⊢ <;> omega
      rw [Matrix.spread, hps.height_eq, if_neg hone, hpe i (by omega)]

/-- The value of an action that fits the database is computed row by row. -/
theorem eval_spec (hdb : db.Regular n) (hh : 0 < h) (hb : b.Rows full h n) (type : Option String)
    (hfit : a.Fits db) (hal : a.Aligned full) (hreads : ∀ x ∈ a.reads, b.IsBound x) :
    a.IsRowwise s db b full h n type := by
  cases a with
  | preimage mode =>
    obtain ⟨m, hm⟩ := hfit
    obtain ⟨-, hs, he⟩ := hdb.preimage_ok hm
    exact isRowwise_of_row rfl hm hs fun _ => he
  | vector mode =>
    obtain ⟨x, hx⟩ := hfit
    obtain ⟨-, m, rfl, hs, he⟩ := hdb.rowOperand_ok hx
    refine isRowwise_of_row rfl (then_ok.2 ⟨_, hx, ?_⟩) hs fun _ => he
    unfold Operand.inspected
    split <;> rfl
  | oneHot mode constant =>
    obtain ⟨c, hc⟩ := hfit
    obtain ⟨m, hm, hs, he⟩ := hdb.oneHot_spec hc type
    refine isRowwise_of_row rfl hm hs fun _ k => (he k).trans ?_
    simp [compute, hc, eq_comm]
  | product source mode transpose =>
    obtain ⟨x, hx⟩ := hfit
    obtain ⟨rows, hr⟩ := hreads source (by simp)
    obtain ⟨m, hm, hs, he⟩ := hdb.carry_ok hx (hb _ _ hr)
    refine .inr ⟨m, then_ok.2 ⟨rows, hr, then_ok.2 ⟨x, hx, hm⟩⟩, ?_, fun i _ k => ?_⟩
    · simpa [height] using hs
    · simp only [compute, vector_of_value hr]
      exact Matrix.spread_eq (f := fun v k =>
        ∑ j ∈ Finset.range n, v j * db.carried mode transpose j k) (hb _ _ hr) hs he i k
  | plugin sources mode => exact hfit.elim
  | hadamard left right =>
    obtain ⟨l, hl⟩ := hreads left (by simp)
    obtain ⟨r, hr⟩ := hreads right (by simp)
    exact isRowwise_hadamard hb hal hl hr
  | weighted weight row =>
    obtain ⟨w, hw⟩ := hreads weight (by simp)
    obtain ⟨r, hr⟩ := hreads row (by simp)
    exact isRowwise_weighted hh hb hw hr

end Action

/-- An action with a value fits, and what it reads is bound. -/
theorem Action.fits_of_ok (hdb : db.Regular n) {type : Option String}
    (h : a.eval s db b type = .ok m) : a.Fits db ∧ ∀ x ∈ a.reads, b.IsBound x := by
  cases a with
  | preimage mode => exact ⟨⟨m, h⟩, by simp⟩
  | vector mode =>
    obtain ⟨x, hx, -⟩ := then_ok.1 h
    exact ⟨⟨x, hx⟩, by simp⟩
  | oneHot mode constant =>
    obtain ⟨c, hc, -⟩ := hdb.oneHot_ok h
    exact ⟨⟨c, hc⟩, by simp⟩
  | product source mode transpose =>
    obtain ⟨rows, hr, h⟩ := then_ok.1 h
    obtain ⟨x, hx, -⟩ := then_ok.1 h
    exact ⟨⟨x, hx⟩, by simpa using ⟨rows, hr⟩⟩
  | plugin sources mode => cases h
  | hadamard left right =>
    obtain ⟨l, hl, h⟩ := then_ok.1 h
    obtain ⟨r, hr, -⟩ := then_ok.1 h
    exact ⟨trivial, by simpa using ⟨⟨l, hl⟩, ⟨r, hr⟩⟩⟩
  | weighted weight row =>
    obtain ⟨r, hr, h⟩ := then_ok.1 h
    obtain ⟨w, hw, -⟩ := then_ok.1 h
    exact ⟨trivial, by simpa using ⟨⟨w, hw⟩, ⟨r, hr⟩⟩⟩

/-- On single rows, the value of an action is the vector that it computes. -/
theorem Action.value_of_ok (hdb : db.Regular n) (hb : b.Single n)
    {type : Option String} (h : a.eval s db b type = .ok m) :
    m.Shaped 1 n ∧ ∀ k, m.entry 0 k = a.compute db n (b.vector 0) k := by
  obtain ⟨hfit, hreads⟩ := fits_of_ok hdb h
  have hal : a.Aligned fun _ => true := by cases a <;> simp [Action.Aligned]
  rcases eval_spec hdb one_pos hb type hfit hal hreads with
    ⟨-, he⟩ | ⟨m', hm', hs, he⟩
  · rw [h] at he
    cases he
  · obtain rfl := ok_unique h hm'
    rw [ite_self] at hs
    refine ⟨hs, fun k => ?_⟩
    rw [← he 0 one_pos k, hs.spread_single]

end BeliefLogic
