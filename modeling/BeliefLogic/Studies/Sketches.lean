import BeliefLogic.Sketch
import BeliefLogic.Studies.Basic

/-!
# Sketches of a relation

A relation is mapped to five slots, and what is found without having been put in is counted.
-/

namespace BeliefLogic.Studies

open Workbench Run Text

variable {α : Type} [Scalar α]

def sampleRelation : List (List Nat) :=
  [[1, 3], [0, 2], [1, 5], [0, 4], [3, 7], [2, 8], [7], [6, 4, 8], [7, 5]]

def sampleMatrix (size : Int) : Except Error (Dense α) :=
  if size < 0 then .error .malformed
  else if size < sampleRelation.length then .error .outOfRange
  else .ok ⟨size.toNat, (List.range size.toNat).map fun i =>
    Sketch.slotRow size.toNat (sampleRelation.getD i [])⟩

def entityRow (i width : Int) : Except Error (Dense α) :=
  if width < 0 then .error .malformed
  else match position? width.toNat i with
    | some k => .ok (Sketch.unitRow width.toNat k)
    | none => .error .outOfRange

/-- The entities that an index chooses: one position, a list, all or nothing. -/
def chosenRow (width : Int) (index : Value α) : Studying α (Dense α) := do
  if width < 0 then throw .malformed
  let all (x : α) : Dense α := ⟨width.toNat, [List.replicate width.toNat x]⟩
  match index with
  | .truth b => return all (if b then 1 else 0)
  | .nothing => return all 1
  | .list items =>
    let ks ← items.mapM fun v => do
      match position? width.toNat (← onBench (positionOf v)) with
      | some k => return k
      | none => throw .outOfRange
    return ⟨width.toNat, [Sketch.slotRow width.toNat ks]⟩
  | v => lift (entityRow (← onBench (positionOf v)) width)

abbrev Found := List (Nat × List Nat)

def foundValue (f : Found) : Value α :=
  .dictionary (f.map fun (r, js) => (.ofNat r, .list (js.map .ofNat)))

def foundText (f : Found) : String :=
  let set (js : List Nat) := "\x7b" ++ ", ".intercalate ((Bins.listed js).map natural) ++ "\x7d"
  let entries := f.map fun (r, js) => natural r ++ ": " ++ set js
  "defaultdict(<class 'set'>, \x7b" ++ ", ".intercalate entries ++ "\x7d)"

def sayFound (what : String) (d : Dense α) (find : List α → List Nat) : Studying α Found := do
  let rows ← d.rows.zipIdx.mapM fun (row, r) => do
    let js := find row
    say ("row " ++ natural r ++ " " ++ what ++ ": " ++
      String.join (js.map fun j => natural j ++ " "))
    return (r, js)
  return rows.filter fun (_, js) => !js.isEmpty

def decodeRows (d : Dense α) : Studying α Found := do
  if d.rows.isEmpty then throw .malformed
  sayFound "contains" d Sketch.support

def decodeSketched (d h : Dense α) : Studying α Found := do
  if d.rows.isEmpty || h.rows.isEmpty then throw .malformed
  require (d.width = h.width) .unstated
  sayFound "contains embedding" d (Sketch.decodeRow h)

def sayGrid (label shape grid : String) : Studying α Unit := do
  let rule := "=========="
  sayAll [rule, label, "shape", shape, rule]
  say grid

def sayMatrix (label : String) (d : Dense α) (code : Option String) (h : Studying α (Dense α)) :
    Studying α (Option Found) := do
  sayGrid label d.shape d.grid
  match code with
  | some "onehot" => return some (← decodeRows d)
  | some "embedded" => return some (← decodeSketched d (← h))
  | _ => return none

def usualSalts : List Int := ["william", "cohen"].map Sketch.Hash.usual.text

def usualEmbedding : Except Error (Dense α) := Sketch.saltedEmbedding .usual 10 5 usualSalts

/-- Compares an entity with its sketch: how many were found too many, and how many should be found.
-/
def compareRow (m h compressed : Dense α) (i : Nat) : Studying α (Nat × Nat) := do
  let row : Dense α := Sketch.unitRow m.width i
  let expected ← decodeRows (row.product m)
  let found ← decodeSketched ((row.product h).product compressed) h
  let counts ← expected.mapM fun (r, js) => do
    match found.lookup r with
    | some ks =>
      require (js.all ks.contains) .unstated
      return ((ks.filter fun k => !js.contains k).length, js.length)
    | none => refuse .unstated
  let collisions := tally (counts.map (·.1))
  let last := ((expected.map (·.1)).getLast?).getD i
  sayAll ["row", natural last, "collisions", natural collisions, "baseline",
    foundText expected, "proposed", foundText found]
  return (collisions, tally (counts.map (·.2)))

def runSketch : Studying α Unit := do
  let unneeded : Studying α (Dense α) := throw .missingPart
  let h ← lift usualEmbedding
  let _ ← sayMatrix "h" h none unneeded
  let m ← lift (sampleMatrix 10)
  let _ ← sayMatrix "m" m (some "onehot") unneeded
  let _ ← sayMatrix "mh" (m.product h) (some "embedded") (pure h)
  let _ ← sayMatrix "h^T/D" (Sketch.spread h) none unneeded
  let compressed := Sketch.compress h m
  let _ ← sayMatrix "E_m" compressed none unneeded
  let counts ← (List.range 10).mapM (compareRow m h compressed)
  sayAll ["tot_collisions", natural (tally (counts.map (·.1))), "tot",
    natural (tally (counts.map (·.2)))]

def showSketch : Studying α Unit := do
  let h ← lift usualEmbedding
  let x ← lift (entityRow 7 10)
  sayAll ["x", (x : Dense α).grid]
  sayAll ["ex", (x.product h).grid]

inductive SketchTask where
  | embedding | sample | display | decodeSketched | decode | entityRow | run
  deriving DecidableEq, Repr

/-- The dense matrix that a value is, not a row by itself. -/
def denseOf : Value α → Studying α (Dense α)
  | .dense d => pure d
  | .row _ => throw .malformed
  | _ => throw .missingPart

def sayRow (label : String) (xs : List α) (code : Option String) : Studying α (Option Found) := do
  sayGrid label (parenthesized [natural xs.length]) (gridLine (xs.map Scalar.toFloat))
  match code with
  | some "onehot" | some "embedded" => throw .malformed
  | _ => return none

def SketchTask.perform (args : Args α) : SketchTask → Studying α (Value α)
  | .embedding => do
    let salts ← onBench (itemsOf (← argument args 2))
    let height : Int ← argument args 0
    if height ≤ 0 then return .row []
    let width : Int ← argument args 1
    let salts : List Int ← onBench (salts.mapM ofValue)
    return .dense (← lift (Sketch.saltedEmbedding .usual height width salts))
  | .sample => do return .dense (← lift (sampleMatrix (← argument args 0)))
  | .display => do
    let label := (← argument args 0 : Value α).printed (← settings).dialect
    let h ← argumentD args 3 .nothing
    let code : Option String := match ← (argumentD args 2 .nothing : Studying α (Value α)) with
      | .text s => some s
      | _ => none
    let found ← match ← (argument args 1 : Studying α (Value α)) with
      | .row xs => sayRow label xs code
      | v => do sayMatrix label (← denseOf v) code (denseOf h)
    return (found.map foundValue).getD .nothing
  | .decodeSketched => do
    return foundValue (← Studies.decodeSketched (← denseOf (← argument args 0))
      (← denseOf (← argument args 1)))
  | .decode => do return foundValue (← decodeRows (← denseOf (← argument args 0)))
  | .entityRow => do
    let width : Int ← argument args 1
    return .dense (← chosenRow width (← argument args 0))
  | .run => do
    runSketch
    return .nothing

end BeliefLogic.Studies
