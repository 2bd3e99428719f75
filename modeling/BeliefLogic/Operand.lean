import BeliefLogic.Datum
import BeliefLogic.Matrix.Basic

/-!
# Operands

Any datum can stand for a matrix. A number scales rows; other uses say which part is missing.
-/

namespace BeliefLogic

inductive Operand (α : Type) where
  | matrix (m : Matrix α)
  | datum (d : Datum α)
  deriving Inhabited

namespace Operand

variable {α : Type}

def matrix? : Operand α → Option (Matrix α)
  | .matrix m => some m
  | .datum _ => none

@[simp] theorem matrix?_matrix (m : Matrix α) : (Operand.matrix m).matrix? = some m := rfl

def toMatrix (part : String) : Operand α → Except Error (Matrix α)
  | .matrix m => .ok m
  | .datum d => .error (.noPart d.kind part)

def saved [Scalar α] : Operand α → Except Error (Matrix α)
  | .matrix m => .ok m
  | .datum d => match d.number? with
    | some x => .ok ⟨1, #[if Scalar.isZero x then [] else [(0, x)]]⟩
    | none => .error .illTyped

def stored (x : Operand α) : Except Error Nat := (x.toMatrix "nnz").map Matrix.stored

def rows [Scalar α] : Operand α → Except Error (Matrix α)
  | .matrix m => .ok m
  | .datum d => .error (.refused (.notStored "unknown" d.shown))

def transpose : Operand α → Except Error (Operand α)
  | .matrix m => .ok (.matrix m.transpose)
  | .datum d => .error (.noPart d.kind "transpose")

variable [Scalar α]

/-- The matrix inspected. With care a datum is refused, else its part is missing. -/
def inspected (careful : Bool) (part : String) (x : Operand α) : Except Error (Matrix α) :=
  if careful then x.rows else x.toMatrix part

/-- The rows that scale as an operand does. A number stands for a multiple of the identity matrix.
-/
def scaling (size : Nat) : Operand α → Except Error (Matrix α)
  | .matrix m => .ok m
  | .datum d => do
    let x ← (Amount.ofDatum d).factor
    return ⟨size, (Array.range size).map fun i => [(i, x)]⟩

/-- Rows times a matrix, or their multiple by a number. -/
def carry (rows : Matrix α) : Operand α → Except Error (Matrix α)
  | .matrix m => rows.mul m
  | .datum d => do rows.scale (← (Amount.ofDatum d).factor)

def scaledDatum (d : Datum α) (scale : Amount α) : Except Error (Datum α) :=
  match d, d.integer?, scale with
  | _, some n, .whole k => .ok (.integer (n * k))
  | .text s, _, .whole k => .ok (.text (String.join (List.replicate k.toNat s)))
  | .list items, _, .whole k => .ok (.list (List.replicate k.toNat items).flatten)
  | .tuple items, _, .whole k => .ok (.tuple (List.replicate k.toNat items).flatten)
  | d, _, scale => do
    match d.number? with
    | some x => return .number (x * (← scale.number))
    | none => throw .illTyped

def scaled (scale : Amount α) : Operand α → Except Error (Operand α)
  | .matrix m => do return .matrix (← m.scale (← scale.factor))
  | .datum d => do return .datum (← scaledDatum d scale)

/-- The difference of an operand and a matrix. Of data only zero has one. -/
def less (x : Operand α) (m : Matrix α) : Except Error (Matrix α) :=
  match x with
  | .matrix x => x.sub m
  | .datum d =>
    match d with
    | .text _ => .error .notMinuend
    | d => match d.number? with
      | some x => if Scalar.isZero x then .error (.noPart d.kind "get_shape") else .error .notMinuend
      | none => .error (.unfit "-" d.kind "csr_matrix")

def add : Operand α → Operand α → Except Error (Operand α)
  | .matrix x, .matrix y => do return .matrix (← x.add y)
  | .matrix m, .datum d | .datum d, .matrix m =>
    match d, d.number? with
    | .text _, _ => .error .notAddend
    | _, some x => if Scalar.isZero x then .ok (.matrix m) else .error .notAddend
    | d, none => .error (.unfit "+" d.kind "csr_matrix")
  | .datum d, .datum e =>
    match d.integer?, e.integer?, d.number?, e.number? with
    | some m, some n, _, _ => .ok (.datum (.integer (m + n)))
    | _, _, some x, some y => .ok (.datum (.number (x + y)))
    | _, _, _, _ => .error (.unfit "+" d.kind e.kind)

@[simp] theorem add_matrix (x y : Matrix α) :
    (Operand.matrix x).add (.matrix y) = (x.add y).map .matrix := by
  simp only [add]
  cases x.add y <;> rfl

end Operand

end BeliefLogic
