import BeliefLogic.Studies.Basic

/-!
# Grids

Paths are learned from each cell of a square grid to a cell that depends on where it lies.
-/

namespace BeliefLogic.Studies

open Workbench Run

variable {α : Type} [Scalar α]

structure Cell where
  row : Int
  column : Int
  deriving DecidableEq, Repr, Inhabited

namespace Cell

def name (c : Cell) : String := Text.integer c.row ++ "," ++ Text.integer c.column

def isWithin (side : Int) (c : Cell) : Bool :=
  1 ≤ c.row && c.row ≤ side && 1 ≤ c.column && c.column ≤ side

def neighbours (side : Int) (c : Cell) : List Cell :=
  ([-1, 0, 1].flatMap fun di => [-1, 0, 1].map fun dj => ⟨c.row + di, c.column + dj⟩).filter
    (isWithin side)

end Cell

def lanes (side : Int) : List Int := (List.range side.toNat).map fun (i : Nat) => (i : Int) + 1

def cells (side : Int) : List Cell :=
  (lanes side).flatMap fun i => (lanes side).map fun j => ⟨i, j⟩

def edgeLine (c d : Cell) (weight : α) : String :=
  "\t".intercalate ["edge", c.name, d.name, Text.fixed 6 (Scalar.toFloat weight)] ++ "\n"

def edgeLines (weight : Except Error α) (side : Int) : List (Except Error String) :=
  (cells side).flatMap fun c => (c.neighbours side).map fun d => weight.map (edgeLine c d)

def cellLines (side : Int) : List (Except Error String) :=
  (cells side).map fun c => .ok ("cell\t" ++ c.name ++ "\n")

def pathLine (c : Cell) (goals : List Cell) : String :=
  "\t".intercalate ("path" :: c.name :: goals.map Cell.name) ++ "\n"

def nearEnd (side i : Int) : Int := if 2 * i ≤ side then 1 else side

def nearEnds (side i : Int) : List Int := if 2 * i ≤ side then [1, 2] else [side - 1, side]

def cornerPaths (side : Int) : List (Except Error String) :=
  (cells side).map fun c => .ok (pathLine c [⟨nearEnd side c.row, nearEnd side c.column⟩])

def cornerBlockPaths (side : Int) : List (Except Error String) :=
  (cells side).map fun c => .ok (pathLine c
    ((nearEnds side c.row).flatMap fun i => (nearEnds side c.column).map fun j => ⟨i, j⟩))

def firstCellPaths (side : Int) : List (Except Error String) :=
  (cells side).map fun c => .ok (pathLine c [⟨1, 1⟩])

def blockCentre (block : α) (i : Int) : Except Error Int :=
  if Scalar.isZero block then .error .divisionByZero
  else wholePart (Scalar.ofInt i / block * block + block / Scalar.ofNat 2)

def blockPaths (block : Except Error α) (side : Int) : List (Except Error String) :=
  (cells side).map fun c => do
    let block ← block
    return pathLine c [⟨← blockCentre block c.row, ← blockCentre block c.column⟩]

structure GridFiles where
  facts : String
  training : String
  testing : String
  deriving DecidableEq, Repr

def GridFiles.value (f : GridFiles) : Value α :=
  .tuple [.text f.facts, .text f.training, .text f.testing]

def gridStem (side : Value α) : Except Error String := do
  return "inputs/g" ++ Text.integer (← whole side)

def gridFiles (stem : String) : GridFiles :=
  ⟨stem ++ ".cfacts", stem ++ "-train.exam", stem ++ "-test.exam"⟩

def sideOf (side : Value α) : Studying α Int := onBench (ofValue side)

def usualWeight : Value α := .number (decimal 2 1)

def chosenNumber (c : Choice) (usual : Option (Value α)) : Studying α (Except Error α) := do
  return (← chosen c usual).bind number

/-- Writes the facts of a grid, once the file is open. -/
def writeGrid (side : Value α) (path : String) (lines : Int → List (Except Error String)) :
    Studying α Unit := do
  putText path ""
  writeLines path (lines (← sideOf side))

/-- Writes the examples of a grid. Files are opened before the side is looked at. -/
def writePaths (side : Value α) (training testing : String)
    (lines : Int → List (Except Error String)) : Studying α Unit := do
  putText training ""
  putText testing ""
  dealLines (α := α) training testing (lines (← sideOf side))

def writeEdges (side : Value α) (path : String) : Studying α Unit := do
  writeGrid side path (edgeLines (← chosenNumber .edgeWeight (some usualWeight)))

def writeCornerGrid (side : Value α) : Studying α GridFiles := do
  let files := gridFiles (← lift (gridStem side))
  writeEdges side files.facts
  writePaths side files.training files.testing cornerPaths
  return files

def writeBlockGrid (side : Value α) : Studying α GridFiles := do
  let files := gridFiles (← lift (gridStem side))
  writeEdges side files.facts
  let block ← chosenNumber .blockSide (some (.integer 10))
  writePaths side files.training files.testing (blockPaths block)
  return files

/-- Writes a grid with paths to one or four cells of a corner. -/
def writeClassGrid (side : Value α) (several : Bool) : Studying α GridFiles := do
  let files := gridFiles ((← lift (gridStem side)) ++ "_logic")
  writeGrid side files.facts (edgeLines (number (usualWeight : Value α)))
  writePaths side files.training files.testing (if several then cornerBlockPaths else cornerPaths)
  return files

structure EdgeChoice (α : Type) where
  weight : Except Error α
  share : Except Error α
  noise : Except Error α

def noisyEdge (choice : EdgeChoice α) (c d : Cell) : StateM Chance (Except Error String) := do
  match choice.weight with
  | .error e => return .error e
  | .ok weight =>
    modify Chance.next
    let u : α := (← get).fraction
    return choice.noise.map fun noise =>
      edgeLine c d (weight + u * noise - noise / Scalar.ofNat 2)

def keptEdges (choice : EdgeChoice α) (side : Int) :
    StateM Chance (List (Except Error String)) := do
  let pairs := (cells side).flatMap fun c => (c.neighbours side).map fun d => (c, d)
  let lines ← pairs.mapM fun (c, d) => do
    modify Chance.next
    let u : α := (← get).fraction
    match choice.share with
    | .error e => return some (Except.error e)
    | .ok share => if u ≤ share then return some (← noisyEdge choice c d) else return none
  return lines.filterMap fun line => line

def wrappingEdges (choice : EdgeChoice α) (side : Int) :
    StateM Chance (List (Except Error String)) := do
  let groups ← (lanes (side - 1)).mapM fun k =>
    [(⟨k, 1⟩, ⟨k, side⟩), (⟨k, side⟩, ⟨k, 1⟩), (⟨1, k⟩, ⟨side, k⟩), (⟨side, k⟩, ⟨1, k⟩)].mapM
      fun ((c, d) : Cell × Cell) => noisyEdge choice c d
  return groups.flatten

def placeLines (functor : String) (place : Cell → Int) (side : Int) : List (Except Error String) :=
  (cells side).map fun c =>
    .ok ("\t".intercalate [functor, c.name, Text.integer (place c)] ++ "\n")

def torusLines (choice : EdgeChoice α) (wrapped : Except Error Bool) (side : Int) :
    List (Except Error String) :=
  let (kept, chance) := (keptEdges choice side).run {}
  let wrapping := match wrapped with
    | .ok true => ((wrappingEdges choice side).run chance).1
    | .ok false => []
    | .error e => [.error e]
  cellLines side ++ kept ++ wrapping ++ placeLines "x1" Cell.row side ++
    placeLines "x2" Cell.column side

/-- Writes a grid whose sides may be joined, with its paths. -/
def writeTorusGrid (side : Value α) : Studying α GridFiles := do
  let files := gridFiles ((← lift (gridStem side)) ++ "_logic")
  let choice : EdgeChoice α :=
    { weight := ← chosenNumber .edgeWeight (some usualWeight)
      share := ← chosenNumber .edgeShare (some (.integer 1))
      noise := ← chosenNumber .edgeNoise (some (.integer 0)) }
  let wrapped ← chosen .wrapped (some (.truth true))
  writeGrid side files.facts (torusLines choice (wrapped.map Value.isTrue))
  writePaths side files.training files.testing firstCellPaths
  return files

end BeliefLogic.Studies
