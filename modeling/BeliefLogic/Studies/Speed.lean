import BeliefLogic.Studies.Basic

/-!
# Speed

Many simple queries are answered, and the number per second is reported.
-/

namespace BeliefLogic.Studies

open Workbench Run Text

variable {α : Type} [Scalar α]

def speedExamples : String := "inputs/fb15k-valid.examples"

/-- The text between two positions, also from the end. -/
def between (lo hi : Int) (cs : List Char) : String :=
  let place (i : Int) : Nat := (if i < 0 then i + cs.length else i).toNat
  String.ofList ((cs.take (place hi)).drop (place lo))

def firstPosition (c : Char) (cs : List Char) : Int :=
  match cs.findIdx? (· == c) with
  | some i => i
  | none => -1

/-- The relation and the entity of a question, around its parenthesis. -/
def questionParts (line : String) : String × String :=
  let cs := line.toList
  let opening := firstPosition '(' cs
  let comma := firstPosition ',' cs
  (between 0 opening cs, between (opening + 1) comma cs)

def hasRules (program : Nat) (mode : Mode) : Studying α Bool := do
  return ((← state).bench.modelAt program).program.defines mode

def readQueries (program database : Nat) : Studying α (List (Mode × Matrix α)) := do
  let db ← onBench (Workbench.database database)
  let found ← (← fileLines speedExamples).mapM fun line => do
    let (functor, x) := questionParts line
    let mode ← lift (Mode.parse (functor ++ "/io"))
    if ← hasRules program mode then
      let row ← lift (db.oneHot x none)
      return some (mode, row)
    else return none
  let queries := found.filterMap fun q => q
  sayAll [natural queries.length, "queries loaded", "ignored",
    natural (found.length - queries.length)]
  return queries

def queryValue (q : Mode × Matrix α) : Value α := .tuple [.mode q.1, .matrix q.2]

def queriesOf (v : Value α) : Studying α (List (Mode × Matrix α)) := onBench (ofValue v)

def modesOf : Value α → Studying α (List Mode)
  | .set names => names.mapM fun name => lift (Mode.parse name)
  | v => onBench (ofValue v)

structure SpeedTest (α : Type) where
  database : Nat
  program : Nat
  modes : List Mode
  queries : List (Mode × Matrix α)

def loadSpeedTest : Studying α (SpeedTest α) := do
  say "loading db...."
  let database ← loadSource "tmp-cache/fb15k.db|inputs/fb15k-valid.cfacts"
  say "loading program...."
  let program ← loadProgram false "inputs/fb15k.ppr" (some database)
  say "loading queries...."
  let queries ← readQueries program database
  return { database, program, modes := (queries.map (·.1)).eraseDups, queries }

def perSecond (n : Nat) (start : α) : Studying α α := do
  return Scalar.ofNat n / ((← readClock) - start)

def compileModes (t : SpeedTest α) : Studying α α := do
  let start ← readClock
  let defined ← t.modes.filterM fun mode => hasRules t.program mode
  defined.forM fun mode => do
    let schema := ((← state).bench.modelAt t.program).database.map (·.schema)
    let _ ← onBench (onModel t.program (onProgram (compileAt schema mode 0)))
  let rate ← perSecond defined.length start
  sayAll ["compiled", natural defined.length, "of", natural t.modes.length,
    "functions at", figure rate, "fps"]
  return rate

def evaluateCompiled (t : SpeedTest α) (mode : Mode) (inputs : Matrix α) : Studying α Unit := do
  match ((← state).bench.modelAt t.program).program.plan? mode 0 with
  | none => throw .notFound
  | some plan =>
    let db ← onBench (Workbench.database t.database)
    let _ ← Run.within ({} : Scratch α) (plan.eval db [inputs])

def sayAnswered (t : SpeedTest α) (start : α) : Studying α α := do
  let rate ← perSecond t.queries.length start
  sayAll ["answered", natural t.queries.length, "queries at", figure rate, "qps"]
  return rate

def answerInTurn (t : SpeedTest α) : Studying α α := do
  let start ← readClock
  t.queries.zipIdx.forM fun ((mode, x), k) => do
    evaluateCompiled t mode x
    if (k + 1) % 100 = 0 then sayAll ["answered", natural (k + 1), "queries"]
  sayAnswered t start

def answerTogether (t : SpeedTest α) : Studying α α := do
  let id ← loadExampleSource t.database ("tmp-cache/fb15k-valid.dset|" ++ speedExamples)
  let e := (← state).bench.examplesAt id
  let start ← readClock
  e.inputs.entries.forM fun (mode, x) => do
    if ← hasRules t.program mode then evaluateCompiled t mode (← lift x.rows)
  sayAnswered t start

def timeEverything : Studying α (Value α) := do
  let t ← loadSpeedTest
  let compiled ← compileModes t
  let inTurn ← answerInTurn t
  let together ← answerTogether t
  return .tuple [.number compiled, .number inTurn, .number together]

/-- Runs the whole study, and loads all again for formulas. -/
def runSpeed : Studying α Unit := do
  let _ ← timeEverything (α := α)
  if (← state).arguments.contains "cross" then
    let _ ← loadSpeedTest (α := α)

inductive SpeedTask where
  | load | compile | answerTogether | answerInTurn | queries | run | compareFormulas
  deriving DecidableEq, Repr

def speedTestOf (args : Args α) : Studying α (SpeedTest α) := do
  return { database := ← thingOf (← argument args 0), program := ← thingOf (← argument args 1)
           modes := ← modesOf (← argument args 2), queries := ← queriesOf (← argument args 3) }

def SpeedTask.perform (args : Args α) : SpeedTask → Studying α (Value α)
  | .load => do
    let t ← loadSpeedTest
    return .tuple [.thing t.database, .thing t.program, .set (t.modes.map (·.text)),
      .list (t.queries.map queryValue)]
  | .compile => do return .number (← compileModes (← speedTestOf args))
  | .answerTogether => do return .number (← Studies.answerTogether (← speedTestOf args))
  | .answerInTurn => do return .number (← Studies.answerInTurn (← speedTestOf args))
  | .queries => do
    let program ← thingOf (← argument args 0)
    return .list ((← readQueries program (← thingOf (← argument args 1))).map queryValue)
  | .run => timeEverything
  | .compareFormulas => do
    let _ ← loadSpeedTest (α := α)
    return .dictionary []

end BeliefLogic.Studies
