import BeliefLogic.Learning.Experiment

/-!
# Looking into a plan

An inspection evaluates a plan on the examples of a mode and lays its nodes out as a tree.
-/

namespace BeliefLogic

open Text

variable {α : Type}

structure TreeRow (α : Type) where
  parent : String
  offset : Nat
  key : String
  text : String
  comment : String
  output : Matrix α
  delta : Option (Matrix α)

structure MessageLine where
  parent : String
  offset : Nat
  text : Option String
  weight : Option String
  deriving DecidableEq, Repr, Inhabited

structure Message where
  label : Option String := none
  lines : List MessageLine := []
  failure : Option Error := none

structure Inspection (α : Type) where
  inputs : List (Option String)
  rows : List (TreeRow α)

namespace Inspection

abbrev Laying (α : Type) := StateT (List (TreeRow α)) (Except Error)

def lay (scratch : Scratch α) (graded : Bool) (id : Option Nat) (text comment parent : String)
    (offset : Nat) : Laying α String := do
  let key := "iid" ++ natural (← get).length
  let cell := (id.map scratch.cell).getD {}
  match cell.output with
  | none => throw .missingPart
  | some output =>
    let delta := if graded then cell.delta else none
    modify (· ++ [{ parent, offset, key, text, comment, output, delta }])
    return key

mutual

def layPlan (scratch : Scratch α) (graded : Bool) (d : Dialect) :
    Plan → String → Nat → Laying α Unit
  | .null i m, parent, offset => do
    let _ ← lay scratch graded i.id (Plan.null i m).summary "" parent offset
  | .log i p, parent, offset => do
    let key ← lay scratch graded i.id (Plan.log i p).summary "" parent offset
    layPlan scratch graded d p key 0
  | .softmax i p, parent, offset => do
    let key ← lay scratch graded i.id (Plan.softmax i p).summary "" parent offset
    layPlan scratch graded d p key 0
  | .sum i ps, parent, offset => do
    let key ← lay scratch graded i.id (Plan.sum i ps).summary "" parent offset
    layPlans scratch graded d ps key 0
  | .sequence i xs y ss r, parent, offset => do
    let key ← lay scratch graded i.id (Plan.sequence i xs y ss r).summary (r.text d) parent offset
    laySteps scratch graded d ss key 0

def layPlans (scratch : Scratch α) (graded : Bool) (d : Dialect) :
    List Plan → String → Nat → Laying α Unit
  | [], _, _ => pure ()
  | p :: ps, parent, offset => do
    layPlan scratch graded d p parent offset
    layPlans scratch graded d ps parent (offset + 1)

def layStep (scratch : Scratch α) (graded : Bool) (d : Dialect) :
    Step → String → Nat → Laying α Unit
  | .act i a, parent, offset => do
    let s := Step.act i a
    let _ ← lay scratch graded i.id s.summary s.comment parent offset
  | .call i x m k p, parent, offset => do
    let s := Step.call i x m k p
    let key ← lay scratch graded i.id s.summary s.comment parent offset
    layPlan scratch graded d p key 0

def laySteps (scratch : Scratch α) (graded : Bool) (d : Dialect) :
    List Step → String → Nat → Laying α Unit
  | [], _, _ => pure ()
  | s :: ss, parent, offset => do
    layStep scratch graded d s parent offset
    laySteps scratch graded d ss parent (offset + 1)

end

variable [Scalar α]

/-- The weights of a row by weight, greatest first, or by name. -/
def arranged (byWeight : Bool) (d : Dictionary (Option String) α) :
    Except Error (List (Option String × α)) :=
  if byWeight then .ok (d.entries.mergeSort fun a b => decide (b.2 ≤ a.2))
  else if d.entries.any (·.1.isNone) && d.size != 1 then .error .illTyped
  else .ok (d.entries.mergeSort fun a b => decide (a.1.getD "" ≤ b.1.getD ""))

/-- Shows the weights of a row. A nameless weight is shown as the one before it. -/
def showRow (byWeight : Bool) (name : String) (d : Dictionary (Option String) α)
    (lines : List MessageLine) (last : Option String) :
    List MessageLine × Option String × Option Error :=
  match arranged byWeight d with
  | .error e => (lines, last, some e)
  | .ok entries =>
    entries.zipIdx.foldl (fun (lines, last, failure) ((symbol, x), offset) =>
      if failure.isSome then (lines, last, failure)
      else
        let last := if symbol.isSome then some (fixed 5 (Scalar.toFloat x)) else last
        if last.isNone then (lines, last, some .unset)
        else (lines ++ [⟨name, offset, symbol, last⟩], last, none)) (lines, last, none)

/-- Shows the rows of a matrix, in lines m1, m2, and so on. -/
def showRows (byWeight : Bool) (inputs : List (Option String))
    (rows : List (Dictionary (Option String) α)) : List MessageLine × Option Error :=
  let single := rows.length == 1
  let (lines, _, failure) := rows.zipIdx.foldl (fun (lines, last, failure) (d, r) =>
    match failure, (if single then some (some "Row Vector:") else inputs[r]?) with
    | some e, _ => (lines, last, some e)
    | none, none => (lines, last, some .outOfRange)
    | none, some title =>
      let name := "m" ++ natural (lines.length + 1)
      showRow byWeight name d (lines ++ [⟨"", r, title, none⟩]) last) ([], none, none)
  (lines, failure)

/-- Looks into a node: from the third column on its change, before that its result. -/
def look (i : Inspection α) (byWeight : Bool) (db : Database α) (key column : String) : Message :=
  match readInteger? (String.ofList (column.toList.drop 1)), i.rows.find? (·.key == key) with
  | none, _ => { failure := some .malformed }
  | _, none => { failure := some .notFound }
  | some n, some row =>
    let (label, m) :=
      if n < 3 then ("Output for " ++ row.text, some row.output)
      else match row.delta with
        | some m => ("Delta for " ++ row.text, some m)
        | none => ("Delta for " ++ row.text ++ " unavailable", none)
    match m.map (db.matrixSymbols · none) with
    | none => { label }
    | some (.error e) => { label, failure := some e }
    | some (.ok rows) =>
      let (lines, failure) := showRows byWeight i.inputs rows
      { label, lines, failure }

end Inspection

namespace Run

variable [Scalar α]

def inspect (mode : Mode) (examples : Examples α) (graded : Bool) : Modelling α (Inspection α) := do
  require (examples.has mode) (.noInspectedExamples mode.text)
  let x ← lift (examples.inputsFor mode)
  let y ← lift (examples.outputsFor mode)
  let plan ← queryPlan mode
  let (_, scratch) ← evaluatePlan plan [x]
  let db ← database
  let symbols ← lift (db.matrixSymbols x none)
  let inputs ← symbols.mapM fun d =>
    match d.keys.head? with
    | some name => pure name
    | none => fail .outOfRange
  let scratch ← if graded then do
      let l : Learner α := { Learner.standard .oneMode with tracer := .silent }
      pure (← traceLoss l mode x (.matrix y) {}).2
    else pure scratch
  let ((), rows) ← lift ((Inspection.layPlan scratch graded (← settings).dialect plan "" 0).run [])
  return { inputs, rows }

end Run

end BeliefLogic
