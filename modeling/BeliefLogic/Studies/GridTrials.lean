import BeliefLogic.Studies.Grid

/-!
# Trials on grids

A trial asks or trains a program that finds paths in a grid.
-/

namespace BeliefLogic.Studies

open Workbench Run

variable {α : Type} [Scalar α]

structure GridRequest where
  goal : String
  side : Int
  depth : Int
  rounds : Int
  deriving DecidableEq, Repr

/-- Half of a number, a half going to even. -/
def halfOf (n : Int) : Except Error Int :=
  match Text.Numeral.ofFloat (Text.Literal.toFloat (.decimal (n < 0) n.natAbs 0)) with
  | .finite negative num den =>
    let half : Int := Text.roundDiv num (2 * den)
    .ok (if negative then -half else half)
  | _ => .error .tooLarge

def GridRequest.read (args : List String) : Except Error GridRequest := do
  let integerAt (i : Nat) (usual : Int) : Except Error Int :=
    match args[i]? with
    | some s => readInteger s
    | none => .ok usual
  let goal := args.headD "acc"
  let side ← integerAt 1 6
  let depth ← integerAt 2 (← halfOf side)
  let rounds ← integerAt 3 30
  return { goal, side, depth, rounds }

def GridRequest.value (r : GridRequest) : Value α :=
  .tuple [.text r.goal, .integer r.side, .integer r.depth, .integer r.rounds]

def announcedRequest : Studying α GridRequest := do
  let r ← lift (GridRequest.read (← state).arguments)
  sayAll ["args", (r.value : Value α).shown]
  return r

def timedDepths : List Int := [4, 8, 10, 16, 32, 64, 99]

def pathMode : Except Error Mode := Mode.parse "path/io"

def timeDepths (program : Nat) : Studying α (Value α) := do
  let times ← timedDepths.mapM fun depth => do
    Run.print ("depth " ++ Text.integer depth ++ " ")
    setMaxDepth program (.integer depth)
    let start ← readClock
    let mode ← lift pathMode
    let question : Args α := [some (.mode mode), some (.list [.text (Cell.name ⟨1, 1⟩)])]
    let _ ← onBench (ProgramCommand.evaluateSymbols.perform program question)
    let elapsed := (← readClock) - start
    sayAll ["time", figure elapsed, "sec"]
    return Value.number elapsed
  return .list times

def announceTrial (side depth rounds : Value α) : Studying α Unit := do
  let side := Text.integer (← lift (whole side))
  let rounds := Text.integer (← lift (whole rounds))
  let depth := Text.integer (← lift (whole depth))
  say ("grid-acc-expt: " ++ side ++ " x " ++ side ++ " grid, " ++ rounds ++
    " epochs, maxPath " ++ depth)

def learnEdges (program : Nat) (depth : Value α) : Studying α Unit := do
  let db ← databaseOfProgram program
  onBench (onDatabase db (Run.update fun db => db.markParam ⟨"edge", 2⟩))
  setMaxDepth program depth

def gridLearner (program : Nat) (rounds : Value α) (rate : α) : Studying α (Value α) := do
  let l : Learner α :=
    { Learner.standard .batch with epochs := rounds.amount, rate := .real rate }
  return .thing (← onBench (keepLearner l program))

def gridExperiment (program : Nat) (training testing learner : Value α) :
    Studying α (Value α) :=
  experiment [("prog", .thing program), ("trainData", training), ("testData", testing),
    ("savedTestPredictions", .text "tmp-cache/test.solutions.txt"),
    ("savedTestExamples", .text "tmp-cache/test.examples"), ("learner", learner)]

def cornerTrial (program : Nat) (training testing side depth rounds : Value α) :
    Studying α (Value α) := do
  announceTrial side depth rounds
  learnEdges program depth
  let learner ← gridLearner program rounds (decimal 1 2)
  let result ← gridExperiment program training testing learner
  let _ ← timeDepths program
  return result

def blockTrial (program : Nat) (training testing : String) (side depth rounds : Value α) :
    Studying α (Value α) := do
  announceTrial side depth rounds
  let db ← databaseOfProgram program
  let trainData ← loadExamples db training false
  let testData ← loadExamples db testing false
  learnEdges program depth
  let learner ← gridLearner program rounds (decimal 5 3)
  let _ ← lift (← chosen .batchSize none)
  let start ← readClock
  let result ← gridExperiment program (.thing trainData) (.thing testData) learner
  sayAll ["elapsed time", figure ((← readClock) - start)]
  return result

def timeBatches (program : Nat) (depth batch : Value α) : Studying α (Value α) := do
  sayAll ["depth", depth.shown, "minibatch", batch.shown]
  setMaxDepth program depth
  let db ← databaseOfProgram program
  onBench (makeSystem (.text "tensorflow") (.thing db) (.thing program) true true)

def loadGrid (facts : String) : Studying α Nat := do
  let db ← loadFacts facts
  loadProgram false "grid.ppr" (some db)

/-- Runs what is asked of a grid with paths to corners, formulas last. -/
def runCornerGrid : Studying α Unit := do
  ensureDirectory "tmp-cache"
  let r ← announcedRequest
  let side : Value α := .integer r.side
  let files ← writeCornerGrid side
  let program ← loadGrid files.facts
  match r.goal with
  | "acc" =>
    let db ← databaseOfProgram program
    let training ← loadExamples db files.training false
    let testing ← loadExamples db files.testing false
    let result ← cornerTrial program (.thing training) (.thing testing) side (.integer r.depth)
      (.integer r.rounds)
    say result.shown
  | "time" =>
    say (← timeDepths program).shown
    throw .unset
  | _ => throw .unset
  say ""
  refuse (.badGoal r.goal)

def runBlockGrid : Studying α Unit := do
  let r ← announcedRequest
  let side : Value α := .integer r.side
  let files ← writeBlockGrid side
  let program ← loadGrid files.facts
  match r.goal with
  | "time" => say (← timeBatches program (.integer r.depth) (.integer r.rounds)).shown
  | "acc" =>
    let result ← blockTrial program files.training files.testing side (.integer r.depth)
      (.integer r.rounds)
    say result.shown
    sayAll ["prog.maxDepth", Text.integer r.depth]
  | goal => refuse (.badGoal goal)

def cellName (args : Args α) : Studying α (Value α) := do
  let row : Value α ← argument args 0
  let column : Value α ← argument args 1
  let row ← lift (whole row)
  let column ← lift (whole column)
  return .text (Cell.name ⟨row, column⟩)

inductive GridTask where
  | cellName | writeEdges | writePaths | readRequest | writeAll | time | measure | compareFormulas
  | run
  deriving DecidableEq, Repr

def GridTask.performCommon (args : Args α) (paths : Int → List (Except Error String))
    (run : Studying α Unit) : GridTask → Studying α (Value α)
  | .cellName => Studies.cellName args
  | .writeEdges => do
    Studies.writeEdges (← argument args 0) (← argument args 1)
    return .nothing
  | .writePaths => do
    Studies.writePaths (← argument args 0) (← argument args 1) (← argument args 2) paths
    return .nothing
  | .readRequest =>
    return (← lift (GridRequest.read (← state).arguments)).value
  | .run => do
    run
    return .nothing
  | _ => throw .unsupported

def GridTask.performCorner (args : Args α) : GridTask → Studying α (Value α)
  | .writeAll => return (← writeCornerGrid (← argument args 0)).value
  | .time => do timeDepths (← thingOf (← argument args 0))
  | .measure => do
    cornerTrial (← thingOf (← argument args 0)) (← argument args 1) (← argument args 2)
      (← argument args 3) (← argument args 4) (← argument args 5)
  | .compareFormulas => return .dictionary []
  | t => t.performCommon args cornerPaths runCornerGrid

def GridTask.performBlock (args : Args α) : GridTask → Studying α (Value α)
  | .writeAll => return (← writeBlockGrid (← argument args 0)).value
  | .time => do
    timeBatches (← thingOf (← argument args 0)) (← argument args 1) (← argument args 3)
  | .measure => do
    blockTrial (← thingOf (← argument args 0)) (← argument args 1) (← argument args 2)
      (← argument args 3) (← argument args 4) (← argument args 5)
  | t => do
    let block ← chosenNumber .blockSide (some (.integer 10))
    t.performCommon args (blockPaths block) runBlockGrid

/-- Names a cell of a grid with paths to a corner, or writes all files. -/
def GridTask.performClass (args : Args α) : GridTask → Studying α (Value α)
  | .cellName => Studies.cellName args
  | _ => do return (← writeClassGrid (← argument args 0) (← argument args 1)).value

/-- Performs a task on a grid with wrapped sides. -/
def GridTask.performTorus (args : Args α) : GridTask → Studying α (Value α)
  | .cellName => Studies.cellName args
  | _ => do return (← writeTorusGrid (← argument args 0)).value

end BeliefLogic.Studies
