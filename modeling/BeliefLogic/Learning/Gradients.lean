import BeliefLogic.Learning.Counter
import BeliefLogic.Plan.Evaluation

/-!
# Gradients and losses

A row has a gradient row for each example, of which the mean counts; the gradient of a matrix is a
sum.
-/

namespace BeliefLogic

open Scalar

/-- A gradient for each parameter. -/
structure Gradients (α : Type) where
  sums : Dictionary Predicate (Matrix α) := {}
  figures : Figures α := {}
  fitted : Bool := false
  deriving Inhabited

variable {α : Type} [Scalar α]

namespace Gradients

def accumulate (g : Gradients α) (p : Predicate) (m : Matrix α) : Except Error (Gradients α) := do
  return { g with sums := ← Scratch.accumulate g.sums p m }

/-- The figure under a name, which is counted from zero if there was none. -/
def counted (g : Gradients α) (name : String) : Datum α × Gradients α :=
  match g.figures.get? name with
  | some d => (d, g)
  | none => (.number 0, { g with figures := g.figures.put name (.number 0) })

def share (n : Datum α) : Except Error α :=
  match n.number? with
  | none => .error (.unfit "/" "float" n.kind)
  | some n => if isZero n then .error .divisionByZero else .ok (1 / n)

/-- Applies a function to every stored value, without figures. -/
def map (f : α → Except Error α) (g : Gradients α) : Except Error (Gradients α) := do
  let sums ← g.sums.entries.mapM fun (p, m) => return (p, ← m.mapM f)
  return { sums := ⟨sums⟩ }

def add (g h : Gradients α) : Except Error (Gradients α) :=
  (g.sums.entries ++ h.sums.entries).foldlM (fun sum (p, m) => sum.accumulate p m) {}

end Gradients

namespace Run

/-- Fits a gradient to its parameter: the mean over examples, or their share. -/
def fitGradient (p : Predicate) (m : Matrix α) : Run α (Gradients α) Unit := do
  let fitted ← if p.arity = 1 then lift m.mean else do
    let (n, g) := (← state).counted "n"
    setState g
    lift (do m.scale (← Gradients.share n))
  update fun g => { g with sums := g.sums.put p fitted }

/-- Gives gradients the shapes of their parameters, one after the other. -/
def fitGradients : Run α (Gradients α) Unit := do
  let g ← state
  if !g.fitted then
    for (p, m) in g.sums.entries do fitGradient p m
    update fun g => { g with fitted := true }

end Run

namespace Matrix

def clipped (lo hi : Option α) (m : Matrix α) : Matrix α := m.map (Scalar.clip lo hi)

/-- Confines every stored value to bounds that are given as data. -/
def confined (lo hi : Datum α) (m : Matrix α) : Except Error (Matrix α) :=
  return m.clipped (← lo.bound?) (← hi.bound?)

def crossEntropy (labels predictions : Matrix α) : Except Error α := do
  let logs ← predictions.mapM log?
  return -(← (← labels.hadamard logs).total)

def meanCrossEntropy (labels predictions : Matrix α) : Except Error α := do
  ratio? (← labels.crossEntropy predictions) (Scalar.ofNat labels.height)

def greatestPosition (xs : List α) : Except Error Nat :=
  match xs with
  | [] => .error .malformed
  | x :: xs =>
    .ok (xs.zipIdx.foldl (fun (best : α × Nat) (y, i) =>
      if isUndefined best.1 then best
      else if isUndefined y || best.1 < y then (y, i + 1) else best) (x, 0)).2

/-- A one in place of the first greatest value of a row and zeros for all others. -/
def bestOnly (r : Row α) : Except Error (Row α) := do
  let best ← greatestPosition (r.map (·.2))
  return r.zipIdx.map fun ((j, _), i) => (j, if i = best then 1 else 0)

def accuracy (labels predictions : Matrix α) : Except Error α := do
  let hits ← (List.range predictions.height).foldlM (fun (sum : α) i => do
    if labels.height ≤ i then throw .outOfRange
    let best ← bestOnly (predictions.row i)
    let hit ← (labels.rowMatrix i).hadamard ⟨predictions.width, #[best]⟩
    return sum + (← hit.total)) 0
  if predictions.height = 0 then throw .divisionByZero
  return hits / Scalar.ofNat predictions.height

end Matrix

end BeliefLogic
