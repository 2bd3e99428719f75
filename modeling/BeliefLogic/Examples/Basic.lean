import BeliefLogic.Database.Storage

/-!
# Examples

Examples are two matrices: row by row an input and its desired outputs. Minibatches visit every row
once.
-/

namespace BeliefLogic

open Scalar

/-- Inputs and desired outputs by mode. -/
structure Examples (α : Type) where
  inputs : Dictionary Mode (Operand α) := {}
  outputs : Dictionary Mode (Operand α) := {}
  deriving Inhabited

/-- Some examples of one mode. -/
structure Batch (α : Type) where
  mode : Mode
  inputs : Matrix α
  outputs : Matrix α
  deriving Inhabited

namespace Examples

variable {α : Type}

def ofMatrices (inputs outputs : Dictionary Mode (Matrix α)) : Examples α :=
  ⟨inputs.mapValues .matrix, outputs.mapValues .matrix⟩

def ofMode (mode : Mode) (x y : Matrix α) : Examples α :=
  ⟨⟨[(mode, .matrix x)]⟩, ⟨[(mode, .matrix y)]⟩⟩

def modes (e : Examples α) : List Mode := e.inputs.keys

def isSingle (e : Examples α) : Bool := e.inputs.size == 1

def has (e : Examples α) (m : Mode) : Bool := e.outputs.contains m && e.inputs.contains m

def find (d : Dictionary Mode (Operand α)) (m : Mode) : Except Error (Operand α) :=
  match d.get? m with
  | some x => .ok x
  | none => .error (.noEntry m.shown)

def extract (e : Examples α) (m : Mode) : Except Error (Examples α) :=
  match e.inputs.get? m with
  | none => .error (.refused (.noExamples m.text))
  | some x => do return { inputs := ⟨[(m, x)]⟩, outputs := ⟨[(m, ← find e.outputs m)]⟩ }

def size (e : Examples α) : Except Error Nat := do
  let inputs ← e.inputs.values.mapM Operand.stored
  return tally inputs + tally (← e.outputs.values.mapM Operand.stored)

variable [Scalar α]

def inputsFor (e : Examples α) (m : Mode) : Except Error (Matrix α) := do (← find e.inputs m).rows

def outputsFor (e : Examples α) (m : Mode) : Except Error (Matrix α) := do
  (← find e.outputs m).rows

def summary (e : Examples α) : Except Error (List String) :=
  e.inputs.entries.mapM fun (m, x) => do
    let x ← Database.operandText x
    let y ← Database.operandText (← find e.outputs m)
    return m.text ++ ": X " ++ x ++ " Y " ++ y

def listedOrder (numbers : Array Nat) (i : Nat) : Except Error Int :=
  match numbers[i]? with
  | some r => .ok r
  | none => .error .outOfRange

def realBatchCount (rows : Nat) (size : α) : Except Error Nat :=
  if isZero size then .error .divisionByZero
  else
    let n := -Text.floor (toFloat (-(Scalar.ofNat rows / size)))
    if isUndefined size ∨ n < 0 then .error .malformed else .ok n.toNat

/-- The number of batches that cover some rows. A size may be spelled. -/
def batchCount (rows : Nat) : Amount α → Except Error Nat
  | .whole size =>
    if size = 0 then .error .divisionByZero
    else
      let n := -((-(rows : Int)).fdiv size)
      if n < 0 then .error .malformed else .ok n.toNat
  | .real size => realBatchCount rows size
  | .written s =>
    match Text.readLiteral? s with
    | some l => realBatchCount rows (ofLiteral l : α)
    | none => .error .malformed
  | .other _ => .error .illTyped

/-- Only a whole size cuts rows; another one has to take in all. -/
def batchesFrom (x y : Except Error (Matrix α)) (m : Mode) (size : Amount α) :
    Nat → Nat → List (Except Error (Batch α))
  | 0, _ => []
  | n + 1, lo =>
    let cut (m : Except Error (Matrix α)) : Except Error (Matrix α) := do
      let m ← m
      match size with
      | .whole size => m.slice lo (lo + size)
      | .real size =>
        if lo = 0 ∧ Scalar.ofNat m.height < size then m.slice 0 m.height else throw .outOfRange
      | .written _ | .other _ => throw .illTyped
    let next := match size with
      | .whole size => (lo + size).toNat
      | _ => lo + 1
    (do return ⟨m, ← cut x, ← cut y⟩) :: batchesFrom x y m size n next

def turns {β : Type} (groups : List (List β)) : List Nat :=
  groups.zipIdx.flatMap fun (g, i) => List.replicate g.length i

/-- Members in the order of turns: each takes the next one of its group. -/
def drawn {β : Type} : List Nat → List (List β) → List β
  | [], _ => []
  | i :: is, groups =>
    match groups[i]? with
    | some (b :: rest) => b :: drawn is (groups.set i rest)
    | _ => drawn is groups

/-- The batches of all modes in shuffled turns, each cut at its turn. -/
def batches (shuffle : List Nat → List Nat) (e : Examples α) (size : Amount α) :
    Except Error (List (Except Error (Batch α))) := do
  if e.modes.isEmpty then throw .malformed
  let groups ← e.modes.mapM fun m => do
    let x ← e.inputsFor m
    let n ← batchCount x.height size
    return batchesFrom (.ok x) (e.outputsFor m) m size n 0
  return drawn (shuffle (turns groups)) groups

end Examples

namespace Run

variable {α : Type} [Scalar α]

/-- Shuffles the examples of a mode, inputs first. -/
def reorderMode (shuffle : List Nat → List Nat) (m : Mode) : Run α (Examples α) Unit := do
  let x ← lift ((← state).inputsFor m)
  let order := Examples.listedOrder (shuffle (List.range x.height)).toArray
  let reordered ← lift (x.permute order)
  update fun e => { e with inputs := e.inputs.put m (.matrix reordered) }
  let e ← state
  let reordered ← lift (do (← e.outputsFor m).permute order)
  update fun e => { e with outputs := e.outputs.put m (.matrix reordered) }

def reorderExamples (shuffle : Mode → List Nat → List Nat) : Run α (Examples α) Unit := do
  for m in (← state).modes do reorderMode (shuffle m) m

/-- The batches of all modes in shuffled turns, reordered before if asked. -/
def shuffledBatches (s : Shuffling) (size : Amount α) (reorder : Bool) :
    Run α (Examples α) (List (Except Error (Batch α))) := do
  if reorder then reorderExamples s.rows
  lift ((← state).batches s.turns size)

def shuffleExamples : Run α (Examples α) Unit := do reorderExamples (← nextShuffling).rows

def minibatches (size : Amount α) (reorder : Bool) :
    Run α (Examples α) (List (Except Error (Batch α))) := do
  shuffledBatches (← nextShuffling) size reorder

end Run

end BeliefLogic
