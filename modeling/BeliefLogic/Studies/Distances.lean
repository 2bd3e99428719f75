import BeliefLogic.Reachability
import BeliefLogic.Studies.GridTrials

/-!
# Which cells are reached

Edges of a grid are kept by chance; the share of samples in which a cell is reached is saved.
-/

namespace BeliefLogic.Studies

open Workbench Run Text

variable {α : Type} [Scalar α]

/-- The edges for which chance times weight exceeds a bound. -/
def sampleLinks (bound : α) (rows : List (List α)) (chance : Chance) : Links × Chance :=
  rows.foldl (fun (links, chance) row =>
    let (draws, chance) := chance.draws (α := α) row.length
    let set := ((draws.zip row).zipIdx).foldl (fun (set : Nat) ((u, w), j) =>
      if bound < u * w then set ||| 1 <<< j else set) 0
    (links ++ [set], chance)) ([], chance)

def countLinks (counts : List (List Nat)) (links : Links) : List (List Nat) :=
  (counts.zip links).map fun (row, set) =>
    row.zipIdx.map fun (n, j) => if set.testBit j then n + 1 else n

/-- Counts in how many samples each pair is joined by a path. -/
def countSamples (bound : α) (rounds : Nat) (rows : List (List α)) (start : α) :
    Nat → Nat → List (List Nat) → Studying α (List (List Nat))
  | 0, _, counts => return counts
  | remaining + 1, t, counts => do
    let (links, chance) := sampleLinks bound rows (← state).chance
    Run.update fun s => { s with chance }
    let counts := countLinks counts (links.reach rounds)
    if t % 100 = 0 then
      let elapsed := (← readClock) - start
      sayAll ["finished", natural t, "samples in", figure elapsed, "sec at",
        figure (Scalar.ofNat (t + 1) / elapsed), "samples per sec"]
    countSamples bound rounds rows start remaining (t + 1) counts

def reservedCells : Nat := 3

def shareLines (shares : List (List α)) : List (Except Error String) :=
  (shares.zipIdx.drop reservedCells).map fun (row, i) =>
    .ok (" ".intercalate (natural i ::
      (row.drop reservedCells).map fun x => Text.general 6 (Scalar.toFloat x)) ++ "\n")

def writeCellGrid (side : Value α) (path : String) : Studying α Unit := do
  let weight ← chosenNumber .edgeWeight none
  writeGrid side path fun n => cellLines n ++ edgeLines weight n

/-- Writes a grid and the share in which each cell is reached. -/
def writeShares (side samples : Value α) : Studying α String := do
  let stem ← lift (gridStem side)
  writeCellGrid side (stem ++ ".cfacts")
  let db ← onBench (database (← loadFacts (stem ++ ".cfacts")))
  let edges ← match db.relation? ⟨"edge", 2⟩ with
    | some m => pure m
    | none => throw .notFound
  let d ← lift (db.dim none)
  let rows := (List.range d).map fun i =>
    (edges.denseRow i).map fun w => if (0 : α) < w then 1 else w
  let start ← readClock
  let samples : Int ← onBench (ofValue samples)
  let keepChance ← lift (← chosenNumber .edgeChance (some (.number (decimal 25 2))))
  let counts ← countSamples (1 - keepChance) (← sideOf side).toNat rows start samples.toNat 0
    (rows.map fun row => row.map fun _ => 0)
  if samples = 0 then throw .divisionByZero
  let scale : α := 1 / Scalar.ofInt samples
  let shares := counts.map fun row => row.map fun n => Scalar.single (0 + scale * Scalar.ofNat n)
  let total := (shares.map Scalar.sum).foldl (fun s x => s + x) 0
  let pairs := (d - reservedCells) * (d - reservedCells)
  sayAll ["max edges", natural pairs, "edges", figure total, "frac",
    figure (total / Scalar.ofNat pairs)]
  writeLines (stem ++ "_y.txt") (shareLines shares)
  return stem ++ "_y.txt"

def readShares (d : Nat) (rows : List (List α)) (line : String) : Except Error (List (List α)) := do
  match fields ' ' (strip line) with
  | [] => .error .malformed
  | first :: rest =>
    let r ← readInteger first
    rest.zipIdx.foldlM (fun rows (s, j) => do
      let x ← readNumber s
      match position? d r, position? d (j + reservedCells : Nat) with
      | some i, some k => return rows.modify i fun row => row.set k x
      | _, _ => .error .outOfRange) rows

def loadShares (db : Database α) (path : String) : Studying α (Value α) := do
  let d ← lift (db.dim none)
  let size := natural d
  sayAll ["target_y", parenthesized [size, size]]
  let rows ← (← fileLines path).foldlM
    (fun rows line => lift (readShares d rows line)) (List.replicate d (List.replicate d 0))
  return .dense ⟨d, rows⟩

def distanceFlags : List Flag :=
  ["n", "epochs", "repeat", "gendata", "load"].map fun name => ⟨name, true⟩

def writtenInteger : Value α → Except Error Int
  | .text s => readInteger s
  | v => whole v

/-- Generates shares, or trains on given ones, for which no target is there. -/
def runDistances (side rounds repeats samples : Value α) : Studying α Unit := do
  let side ← lift (writtenInteger side)
  let _ ← lift (writtenInteger rounds)
  let repeats ← lift (writtenInteger repeats)
  let samples ← lift (writtenInteger samples)
  if 0 < samples then
    sayAll ["generating data with", Text.integer samples, "trials"]
    let path ← writeShares (.integer side) (.integer samples)
    sayAll ["stored in", path]
  else if 0 < repeats then
    sayAll ["trial", "1"]
    let files ← writeCornerGrid (.integer side)
    let _ ← onBench (makeSystem (.text "tensorflow") (.text files.facts) (.text "grid.ppr") true true)
  else throw .divisionByZero

def runDistanceLine : Studying α Unit := do
  let (options, _) ← lift (Flag.read [⟨"x", true⟩] distanceFlags (← state).arguments)
  let given : Dictionary String (Value α) := .ofList (options.map fun (name, v) =>
    (String.ofList (name.toList.drop 2), .text v))
  sayAll ["optdict", (Value.dictionary (given.entries.map fun (k, v) => (.text k, v))).shown]
  if given.contains "" then throw .illTyped
  let value (name usual : String) : Value α := (given.get? name).getD (.text usual)
  runDistances (value "n" "10") (value "epochs" "1000") (value "repeat" "1") (value "gendata" "0")

inductive DistanceTask where
  | cellName | writeGrid | writeShares | loadShares | run
  deriving DecidableEq, Repr

def DistanceTask.perform (args : Args α) : DistanceTask → Studying α (Value α)
  | .cellName => Studies.cellName args
  | .writeGrid => do
    writeCellGrid (← argument args 0) (← argument args 1)
    return .nothing
  | .writeShares => return .text (← Studies.writeShares (← argument args 0) (← argument args 1))
  | .loadShares => do
    let db ← onBench (do databaseOf (← args.get 0))
    Studies.loadShares db (← argument args 1)
  | .run => do
    runDistances (← argumentD args 0 (.text "10")) (← argumentD args 1 (.text "1000"))
      (← argumentD args 2 (.text "1")) (← argumentD args 3 (.text "0"))
    return .nothing

end BeliefLogic.Studies
