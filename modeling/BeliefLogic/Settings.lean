import BeliefLogic.Dictionary
import BeliefLogic.Matrix.Dense

/-!
# Settings

What a choice stands for is fixed when it is made; the datum is kept for listings.
-/

namespace BeliefLogic

/-- How answers are normalized. -/
inductive Normalization where
  | softmax
  | logSoftmax
  | identity
  /-- What names no normalization, as reports show it. -/
  | unknown (shown : Option String)
  deriving DecidableEq, Repr, Inhabited

/-- The normalization that a datum names; what counts as false is none. -/
def Normalization.ofDatum {α : Type} [Scalar α] (d : Datum α) : Normalization :=
  match d with
  | .text "softmax" => .softmax
  | .text "log+softmax" => .logSoftmax
  | .text "none" => .identity
  | d => if d.isTrue then .unknown (some d.shown) else .identity

/-- How deep or far something goes. What is no number bounds nothing. -/
inductive Depth where
  | upTo (n : Int)
  | undefined (kind : String)
  deriving DecidableEq, Repr, Inhabited

namespace Depth

/-- The depth that a datum stands for, rounded down. -/
def ofDatum {α : Type} [Scalar α] (d : Datum α) : Depth :=
  match d.floor? with
  | some n => .upTo n
  | none => .undefined d.kind

def below {α : Type} [Scalar α] (d : Datum α) : Depth :=
  match d.ceiling? with
  | some n => .upTo (n - 1)
  | none => .undefined d.kind

def isExceededBy (n : Int) : Depth → Except Error Bool
  | .upTo k => .ok (decide (k < n))
  | .undefined kind => .error (.incomparable kind)

end Depth

/-- The choices of a run. -/
structure Settings (α : Type) where
  given : Dictionary String (Datum α) := {}
  dialect : Dialect := .clause
  strictRules : Bool := true
  traceAnalysis : Bool := false
  emitOperations : Bool := true
  normalizeOutputs : Bool := true
  sortByWeight : Bool := true
  traceFunctions : Bool := false
  traceValues : Bool := false
  leastGradient : Datum α := .integer (-100)
  greatestGradient : Datum α := .integer 100
  weightedTuples : Bool := true
  typedByDefault : Bool := false
  ignoreTypes : Bool := false
  careful : Bool := true
  denseWeighting : Bool := false
  denseMean : Bool := true
  /-- The multiple of the sparse size up to which dense copies are made. -/
  denseFactor : Datum α := .integer 3
  denseIntercept : Datum α := .integer 10000
  reportDensity : Bool := false
  traceOperations : Bool := false
  tracedEntries : Depth := .upTo (-1)
  traceChanges : Bool := false
  traceMaxima : Bool := false
  checkUndefined : Bool := true
  shownDepth : Depth := .upTo 0
  maxDepth : Depth := .upTo 10
  normalization : Normalization := .softmax
  reparameterize : Bool := true
  allowUnknownTypes : Bool := false
  deriving Repr

def Settings.standard (α : Type) : Settings α := {}

def Settings.denseLimit {α : Type} [Scalar α] (s : Settings α) : DenseLimit α :=
  .ofData s.denseFactor s.denseIntercept

instance (α : Type) : Inhabited (Settings α) := ⟨.standard α⟩

end BeliefLogic
