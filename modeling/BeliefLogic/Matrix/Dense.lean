import BeliefLogic.Datum
import BeliefLogic.Matrix.Basic

/-!
# Dense windows of sparse matrices

The window of a dense copy runs from the least to the greatest stored column.
-/

namespace BeliefLogic

open Scalar

/-- A dense matrix. -/
structure Dense (α : Type) where
  width : Nat
  rows : List (List α)
  deriving Repr, Inhabited

/-- The dense matrix of rows of one length. -/
def Dense.ofRows {α : Type} (rows : List (List α)) : Dense α := ⟨(rows.headD []).length, rows⟩

/-- The columns of a dense copy. -/
structure Window where
  first : Nat
  width : Nat
  deriving DecidableEq, Repr, Inhabited

/-- The greatest size: `factor` times the sparse size plus `intercept`. -/
inductive DenseLimit (α : Type) where
  | whole (factor intercept : Int)
  | real (factor intercept : α)
  /-- A limit that is no number, to which no size can be compared. -/
  | undefined
  deriving DecidableEq, Repr, Inhabited

namespace DenseLimit

variable {α : Type} [Scalar α]

/-- The limit that data stand for. -/
def ofData (factor intercept : Datum α) : DenseLimit α :=
  match factor.integer?, intercept.integer?, factor.number?, intercept.number? with
  | some f, some b, _, _ => .whole f b
  | _, _, some f, some b => .real f b
  | _, _, _, _ => .undefined

/-- Whether a size is within the limit. -/
def allows (sparse dense : Int) : DenseLimit α → Except Error Bool
  | .whole factor intercept => .ok (decide (dense ≤ sparse * factor + intercept))
  | .real factor intercept =>
    .ok (decide ¬(Scalar.ofInt sparse * factor + intercept < Scalar.ofInt dense))
  | .undefined => .error .illTyped

end DenseLimit

/-- A dense copy, or why there is none. -/
inductive DenseCopy (γ : Type) where
  | made (copy : γ) (window : Window)
  | tooLarge (sparse dense : Int)
  | nothingStored

namespace Matrix

variable {α : Type} [Scalar α]

/-- The number of cells from one column up to another, in all rows. -/
def denseSize (m : Matrix α) (lo hi : Int) : Int := (hi - lo) * m.height

/-- The size of a matrix in storage. -/
def sparseSize (m : Matrix α) : Int := m.height + 1 + 2 * m.stored

/-- The rows between two columns. -/
def denseRows (m : Matrix α) (lo hi : Nat) : Dense α :=
  let width := hi + 1 - lo
  ⟨width, m.rows.toList.map fun r =>
    let s := (Scattered.none width).putRow (r.map fun (j, x) => (j - lo, x))
    (List.range width).map s.get⟩

/-- A dense copy of the columns in use, if anything is stored. -/
def denseCopy (limit : DenseLimit α) (m : Matrix α) : Except Error (DenseCopy (Dense α)) :=
  match m.columns.min?, m.columns.max? with
  | some lo, some hi => do
    let dense := m.denseSize lo hi
    let sparse := m.sparseSize
    if ← limit.allows sparse dense then return .made (m.denseRows lo hi) ⟨lo, m.width⟩
    else return .tooLarge sparse dense
  | _, _ => .error .nothingStored

/-- Dense copies of two matrices over the columns that either uses. -/
def denseCopies (limit : DenseLimit α) (m n : Matrix α) :
    Except Error (DenseCopy (Dense α × Dense α)) :=
  if m.width ≠ n.width then .error (.refused .unequalColumns)
  else
    match m.columns.min?, n.columns.min?, m.columns.max?, n.columns.max? with
    | some lo₁, some lo₂, some hi₁, some hi₂ => do
      let lo := min lo₁ lo₂
      let hi := max hi₁ hi₂
      let dense := m.denseSize lo hi + n.denseSize lo hi
      let sparse := m.sparseSize + n.sparseSize
      if ← limit.allows sparse dense then
        return .made (m.denseRows lo hi, n.denseRows lo hi) ⟨lo, m.width⟩
      else return .tooLarge sparse dense
    | _, _, _, _ => .ok .nothingStored

end Matrix

namespace Dense

variable {α : Type} [Scalar α]

/-- The sparse matrix of a dense copy. -/
def toMatrix (d : Dense α) (w : Window) : Matrix α :=
  ⟨w.width, (d.rows.map fun r => r.zipIdx.filterMap fun (x, j) =>
    if isZero x then none else some (j + w.first, x)).toArray⟩

/-- The sum of all rows. -/
def rowSum (d : Dense α) : Except Error (Dense α) := do
  let sums ← d.rows.foldlM (fun acc r => (acc.zip r).mapM fun (a, b) => accumulate? a b)
    (List.replicate d.width 0)
  return ⟨d.width, [sums]⟩

/-- The greatest value of a row. -/
def rowMax : List α → α
  | [] => 0
  | x :: xs => xs.foldl Scalar.max x

/-- The softmax of a row in which zeros are absent and stay so. -/
def softmaxRow (r : List α) : Except Error (List α) := do
  let top := rowMax r
  let shifted ← r.mapM fun x => Scalar.sub? x top
  let raised ← shifted.mapM exp?
  let masked := (r.zip raised).map fun (x, e) => if isZero x then 0 else e
  let norm ← sum? masked
  masked.mapM fun e => div? e norm

/-- The softmax of all rows. -/
def softmax (d : Dense α) : Except Error (Dense α) := do
  return ⟨d.width, ← d.rows.mapM softmaxRow⟩

/-- The elementwise product; a single row is paired with every row. -/
def multiply (d e : Dense α) : Except Error (Dense α) := do
  let pair (r s : List α) : Except Error (List α) :=
    (r.zip s).mapM fun (x, y) => mul? x y
  if d.rows.length = e.rows.length then
    return ⟨d.width, ← (d.rows.zip e.rows).mapM fun (r, s) => pair r s⟩
  else
    match d.rows, e.rows with
    | [r], es => return ⟨d.width, ← es.mapM (pair r)⟩
    | ds, [s] => return ⟨d.width, ← ds.mapM fun r => pair r s⟩
    | _, _ => .error .malformed

/-- Multiplies rows by the sums of the other's rows; a single row is repeated. -/
def weightByRowSum (d e : Dense α) : Except Error (Dense α) := do
  let sums ← e.rows.mapM sum?
  let weigh (r : List α) (w : α) : Except Error (List α) := r.mapM fun x => mul? x w
  if d.rows.length = sums.length then
    return ⟨d.width, ← (d.rows.zip sums).mapM fun (r, w) => weigh r w⟩
  else
    match d.rows, sums with
    | [r], ws => return ⟨d.width, ← ws.mapM (weigh r)⟩
    | ds, [w] => return ⟨d.width, ← ds.mapM fun r => weigh r w⟩
    | _, _ => .error .malformed

end Dense

namespace Matrix

variable {α : Type} [Scalar α]

/-- The sum of all rows. -/
def rowSum (m : Matrix α) : Matrix α :=
  let ones : Row α := (List.range m.stored).map fun i => (i, 1)
  ⟨m.width, #[mulRow ones
    ⟨m.width, (m.rows.toList.flatMap fun r => r.map fun e => [e]).toArray⟩]⟩

/-- The softmax of a row, with small values for those that vanish. -/
def softmaxRow (floor : α) (r : Row α) : Except Error (Row α) := do
  match r.map (·.2) with
  | [] => .error .emptyRow
  | x :: xs =>
    let top := xs.foldl (fun a b => if a < b then b else a) x
    if isUndefined top then .error (.refused .undefinedMaximum)
    let raised ← (x :: xs).mapM fun y => do exp? (← Scalar.sub? y top)
    let norm := Scalar.sum raised
    if isUndefined norm then .error (.refused .undefinedNorm)
    let shares ← raised.mapM fun e => div? e norm
    return (r.zip shares).map fun ((j, _), s) => (j, if isZero s then floor else s)

/-- The softmax of all rows. -/
def softmaxRows (floor : α) (m : Matrix α) : Except Error (Matrix α) := do
  return ⟨m.width, ← m.rows.mapM (softmaxRow floor)⟩

/-- A row times the sum of another one. -/
def weighRow (r s : Row α) : Except Error (Row α) := do
  let w ← sum? (s.map (·.2))
  r.mapM fun (j, x) => return (j, ← mul? x w)

/-- Multiplies rows by the sums of the other's rows; a single row is repeated. -/
def weightByRowSum (m n : Matrix α) : Except Error (Matrix α) := do
  if n.height = 1 then m.scale (← n.total)
  else if m.height = 1 ∧ 1 < n.height then
    return ⟨m.width, ← n.rows.mapM (weighRow (m.row 0))⟩
  else if m.height = n.height then
    return ⟨m.width, ← (m.rows.zip n.rows).mapM fun (r, s) => weighRow r s⟩
  else .error (.refused .unequalRowSums)

end Matrix

end BeliefLogic
