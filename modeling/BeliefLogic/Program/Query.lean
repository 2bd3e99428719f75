import BeliefLogic.Plan.Inputs
import BeliefLogic.Program.Features

/-!
# Queries

A query is a mode with a row for each input. Programs are saved together with their databases.
-/

namespace BeliefLogic.Run

variable {α : Type} [Scalar α]

def queryPlan (mode : Mode) : Modelling α Plan := do
  let m ← state
  onProgram (compile (m.database.map (·.schema)) mode)

def evaluatePlan (plan : Plan) (inputs : List (Matrix α)) : Modelling α (Matrix α × Scratch α) := do
  let db ← database
  within {} (plan.eval db inputs)

def planAnswers (plan : Plan) (inputs : List (Matrix α)) : Modelling α (Matrix α) := do
  if 975 < plan.nesting then fail .endless
  return (← evaluatePlan plan inputs).1

def planInput (plan : Plan) (x : Operand α) : Modelling α (Matrix α) := do
  lift (plan.inputRows (← settings).careful (← database) x)

def evaluate (mode : Mode) (inputs : List (Matrix α)) : Modelling α (Matrix α) := do
  return (← evaluatePlan (← queryPlan mode) inputs).1

def queryGradient (mode : Mode) : Modelling α (Matrix α) := do
  let _ ← queryPlan mode
  fail .missingPart

/-- Saves a program and its database in a directory. -/
def saveProgram (directory : String) : Modelling α Unit := do
  let program := (← state).program
  if !program.plugins.isEmpty then
    warn ("plugins can NOT be serialized in " ++ Text.quoted directory ++
      ", so semantics after deserialization might be different!")
  setFiles (← lift ((← files).ensureDirectory directory))
  putText (Files.join directory "rules.tlog") program.theory.serialize
  saveDatabase (← database) (Files.join directory "database.db")

def loadProgram {σ : Type} (directory : String) : Run α σ (Database α × Theory) := do
  let db ← loadDatabase (Files.join directory "database.db")
  let path := Files.join directory "rules.tlog"
  let lines ← fileLines path
  return (db, ← readRules .operator (.ofFile path lines) { dialect := .operator })

end BeliefLogic.Run
