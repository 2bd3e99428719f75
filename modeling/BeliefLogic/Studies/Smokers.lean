import BeliefLogic.Studies.Basic

/-!
# Smokers

Questions about people who smoke and have friends are asked and timed.
-/

namespace BeliefLogic.Studies

open Workbench Run Text

variable {α : Type} [Scalar α]

def smokerModes : List String :=
  ["t_stress/io", "t_influences/io", "t_cancer_spont/io", "t_cancer_smoke/io"]

structure Smokers (α : Type) where
  program : Nat
  console : Nat
  rows : List (Matrix α)
  all : Matrix α

def loadSmokers (facts : String) : Studying α (Nat × Nat) := do
  let loaded ← Run.readArguments ⟨none, [], []⟩
    (["--prog", "smokers.ppr", "--proppr", "--db", facts].map .text)
  let db ← onBench (do
    match loaded.model.database with
    | some db => keepDatabase db
    | none => throw .missingPart)
  let theory ← onBench (keepTheory loaded.model.program.theory)
  let plans ← onBench (keep (.plans loaded.model.program.plans))
  let program ← onBench (keep (.program loaded.model.program theory plans (some db)))
  prepareRules program 99
  return (program, ← onBench (keep (.console program none none (.integer 10))))

def personRows (db : Database α) (isEnough : Nat → Bool) :
    Nat → List String → Except Error (List (Matrix α))
  | _, [] => .ok []
  | n, name :: names => do
    let row ← db.oneHot (strip name) none
    if isEnough (n + 1) then return [row] else return row :: (← personRows db isEnough (n + 1) names)

def prepareSmokers (facts people : String) (isEnough : Nat → Bool) : Studying α (Smokers α) := do
  let (program, console) ← loadSmokers facts
  let db ← onBench (database (← databaseOfProgram program))
  let rows ← lift (personRows db isEnough 0 (← fileLines people))
  return { program, console, rows, all := ← lift (Matrix.stack rows) }

def prepareAllSmokers : Studying α (Smokers α) :=
  prepareSmokers "smokers.cfacts" "query-entities.txt" fun _ => false

def prepareSomeSmokers (size : Value α) : Studying α (Smokers α) := do
  let size := Text.integer (← lift (whole size))
  let limit ← chosen .batchSize (some (.integer 250))
  let isEnough (n : Nat) : Bool :=
    match limit.bind number with
    | .ok x => Scalar.isZero (x - Scalar.ofNat n)
    | .error _ => false
  let s ← prepareSmokers ("smoker-" ++ size ++ ".cfacts") ("query-entities-" ++ size ++ ".txt") isEnough
  sayAll [natural s.rows.length, "queries"]
  return s

def askSmokers (program : Nat) (batches : List (Matrix α)) : Studying α α := do
  let start ← readClock
  smokerModes.forM fun mode => do
    Run.print ("eval " ++ mode ++ " ")
    let begun ← readClock
    batches.forM fun batch => do
      let _ ← ask program mode batch
    sayAll ["time", figure ((← readClock) - begun), "sec"]
  return (← readClock) - start

def timeAllSmokers : Studying α α := do
  let s ← prepareAllSmokers
  let total ← askSmokers s.program [s.all]
  sayAll ["total time", figure total, "sec"]
  return total

def timeSomeSmokers (size together : Value α) : Studying α α := do
  let s ← prepareSomeSmokers size
  let total ← askSmokers s.program (if together.isTrue then [s.all] else s.rows)
  let rate := Scalar.ofNat s.all.height / total
  sayAll ["batch size", natural s.rows.length]
  sayAll ["minibatch", together.shown]
  sayAll ["total query time", figure total, "sec"]
  sayAll ["queries/sec", figure rate]
  say (fixed 2 (Scalar.toFloat total) ++ "\t" ++ fixed 2 (Scalar.toFloat rate))
  return total

def runAllSmokers : Studying α Unit := do
  sayAll ["time", figure (← timeAllSmokers)]
  let _ ← prepareAllSmokers (α := α)

def runSomeSmokers : Studying α Unit := do
  let args := (← state).arguments
  let size ← match args.head? with
    | some s => lift (readInteger s)
    | none => pure 100
  sayAll ["time", figure (← timeSomeSmokers (.integer size) (.truth (args.length < 2)))]

inductive SmokerTask where
  | prepare
  | time
  deriving DecidableEq, Repr

def SmokerTask.performAll : SmokerTask → Studying α (Value α)
  | .prepare => do
    let s ← prepareAllSmokers
    return .tuple [.thing s.console, .matrix s.all]
  | .time => return .number (← timeAllSmokers)

def SmokerTask.performSome (args : Args α) : SmokerTask → Studying α (Value α)
  | .prepare => do
    let s ← prepareSomeSmokers (← argument args 0)
    return .tuple [.thing s.console, .matrix s.all, .list (s.rows.map .matrix)]
  | .time => return .number (← timeSomeSmokers (← argument args 0) (← argument args 1))

end BeliefLogic.Studies
