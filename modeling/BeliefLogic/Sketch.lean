import BeliefLogic.Matrix.Dense
import BeliefLogic.Text.Grid

/-!
# Sketches

A sketch maps a large space to a small one by hash functions. What was put in is always found.
-/

namespace BeliefLogic

namespace Dense

variable {α : Type} [Scalar α]

def dot (r s : List α) : α := (r.zip s).foldl (fun sum (x, y) => sum + x * y) 0

def column (d : Dense α) (j : Nat) : List α := d.rows.map fun r => r.getD j 0

def transpose (d : Dense α) : Dense α := ⟨d.rows.length, (List.range d.width).map d.column⟩

def product (d e : Dense α) : Dense α :=
  ⟨e.width, d.rows.map fun r => (List.range e.width).map fun j => dot r (e.column j)⟩

def scaleColumns (d : Dense α) (factors : List α) : Dense α :=
  ⟨d.width, d.rows.map fun r => (r.zip factors).map fun (x, f) => x * f⟩

def rowSums (d : Dense α) : List α := d.rows.map fun r => r.foldl (fun s x => s + x) 0

def shape (d : Dense α) : String :=
  Text.parenthesized (Text.natural d.rows.length ::
    if d.rows.isEmpty then [] else [Text.natural d.width])

def grid (d : Dense α) : String := Text.grid (d.rows.map fun r => r.map Scalar.toFloat)

end Dense

namespace Sketch

variable {α : Type} [Scalar α]

def exclusive : Int → Int → Int
  | .ofNat m, .ofNat n => .ofNat (m ^^^ n)
  | .ofNat m, .negSucc n => .negSucc (m ^^^ n)
  | .negSucc m, .ofNat n => .negSucc (m ^^^ n)
  | .negSucc m, .negSucc n => .ofNat (m ^^^ n)

def textHash (s : String) : Nat := tally (s.toList.map Char.toNat)

/-- A number that tells integers apart, below a prime and not minus one. -/
def integerHash (n : Int) : Int :=
  let h := n.tmod (Int.ofNat (Nat.pow 2 61 - 1))
  if h = -1 then -2 else h

/-- A way to hash texts and whole numbers. -/
structure Hash where
  text : String → Int
  integer : Int → Int

def Hash.usual : Hash := ⟨fun s => textHash s, integerHash⟩

def slot (hash : Hash) (width salt : Int) (position : Nat) : Int :=
  (exclusive (hash.integer (position + hash.text "pittsburgh")) salt).fmod width

def slotRow (width : Nat) (slots : List Nat) : List α :=
  (List.range width).map fun j => if j ∈ slots then 1 else 0

def embedding (height width : Nat) (slots : Nat → List Nat) : Dense α :=
  ⟨width, (List.range height).map fun i => slotRow width (slots i)⟩

def saltedEmbedding (hash : Hash) (height width : Int) (salts : List Int) :
    Except Error (Dense α) :=
  if width = 0 && 0 < height && !salts.isEmpty then .error .divisionByZero
  else if width < 0 && 0 < height && !salts.isEmpty then .error .outOfRange
  else .ok (embedding height.toNat width.toNat fun i => salts.map fun s => (slot hash width s i).toNat)

def reaches (r s : List α) : Bool := (r.zip s).all fun (x, y) => decide (y ≤ x)

def decodeRow (h : Dense α) (r : List α) : List Nat :=
  (h.rows.zipIdx.filter fun (s, _) => reaches r s).map (·.2)

def support (r : List α) : List Nat :=
  (r.zipIdx.filter fun (x, _) => !Scalar.isZero x).map (·.2)

def spread (h : Dense α) : Dense α := h.transpose.scaleColumns (h.rowSums.map fun s => 1 / s)

def compress (h m : Dense α) : Dense α := (spread h).product (m.product h)

def unitRow (width i : Nat) : Dense α := ⟨width, [slotRow width [i]]⟩

end Sketch

end BeliefLogic
