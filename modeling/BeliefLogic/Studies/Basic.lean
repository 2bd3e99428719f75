import BeliefLogic.Workbench.Inspecting

/-!
# Studies

A study prepares, runs and reports. Its clock goes on by half a second at each reading.
-/

namespace BeliefLogic.Studies

open Workbench Run Scalar

structure Chance where
  last : Nat := 12345
  deriving DecidableEq, Repr, Inhabited

namespace Chance

def modulus : Nat := Nat.pow 2 31

def next (c : Chance) : Chance := ⟨(c.last * 1103515245 + 12345) % modulus⟩

def fraction {α : Type} [Scalar α] (c : Chance) : α :=
  Scalar.ofNat c.last / Scalar.ofNat modulus

def draws {α : Type} [Scalar α] (c : Chance) : Nat → List α × Chance
  | 0 => ([], c)
  | n + 1 =>
    let (xs, last) := draws c.next n
    (c.next.fraction :: xs, last)

end Chance

inductive Choice where
  | edgeWeight | blockSide | batchSize | edgeShare | edgeNoise | wrapped | edgeChance | relations
  deriving DecidableEq, Repr

structure Study (α : Type) where
  bench : Bench α := {}
  readings : Nat := 0
  chance : Chance := {}
  arguments : List String := []
  input : List String := []
  choices : Dictionary Choice (Value α) := {}
  deriving Inhabited

abbrev Studying (α : Type) := Run α (Study α)

variable {α : Type} [Scalar α]

def onBench {β : Type} (act : Work α β) : Studying α β :=
  Run.focus (·.bench) (fun b s => { s with bench := b }) act

def readClock : Studying α α := do
  let s ← state
  setState { s with readings := s.readings + 1 }
  return Scalar.ofNat s.readings / Scalar.ofNat 2

def draw : Studying α α := do
  let c := (← state).chance.next
  Run.update fun s => { s with chance := c }
  return c.fraction

/-- Works through lines; each counts as read before it is worked on. -/
def overLines {σ : Type} (step : σ → String → Studying α σ) : σ → List String → Studying α σ
  | made, [] => return made
  | made, line :: rest => do
    Run.update fun s => { s with input := rest }
    overLines step (← step made line) rest

def overInput {σ : Type} (step : σ → String → Studying α σ) (start : σ) : Studying α σ := do
  overLines step start (← state).input

def chosen (c : Choice) (usual : Option (Value α)) : Studying α (Except Error (Value α)) := do
  return match ((← state).choices.get? c).or usual with
    | some v => .ok v
    | none => .error .undefinedName

def argument {β : Type} [OfValue α β] (args : Args α) (i : Nat) : Studying α β :=
  onBench (args.get i)

def argumentD {β : Type} [OfValue α β] (args : Args α) (i : Nat) (usual : β) : Studying α β :=
  onBench (args.getD i usual)

def decimal (digits : Nat) (places : Nat) : α :=
  ofLiteral (.decimal false digits (-(places : Int)))

def number : Value α → Except Error α
  | .integer n => .ok (Scalar.ofInt n)
  | .number x => .ok x
  | .truth b => .ok (if b then 1 else 0)
  | _ => .error .illTyped

def wholePart (x : α) : Except Error Int :=
  match Text.Numeral.ofFloat (toFloat x) with
  | .finite negative num den => .ok (if negative then -(num / den : Nat) else (num / den : Nat))
  | _ => .error (if isUndefined x then .malformed else .tooLarge)

def whole : Value α → Except Error Int
  | .integer n => .ok n
  | .truth b => .ok (if b then 1 else 0)
  | .number x => wholePart x
  | _ => .error .illTyped

def figure (x : α) : String := Text.shortest (toFloat x)

def sayAll (parts : List String) : Studying α Unit := say (" ".intercalate parts)

def readInteger (s : String) : Except Error Int :=
  match Text.readInteger? s with
  | some n => .ok n
  | none => .error .malformed

def readNumber (s : String) : Except Error α :=
  match Text.readLiteral? s with
  | some l => .ok (ofLiteral l)
  | none => .error .malformed

def written : List (Except Error String) → List String
  | .ok line :: rest => line :: written rest
  | _ => []

/-- Writes lines to a file, up to the first that fails. -/
def writeLines (path : String) (lines : List (Except Error String)) : Studying α Unit := do
  putText path (String.join (written lines))
  lines.forM fun line => do
    let _ ← lift line

def deal (c : Chance) : List String → List String × List String
  | [] => ([], [])
  | x :: xs =>
    let (left, right) := deal c.next xs
    if (c.next.fraction : α) < decimal 67 2 then (x :: left, right) else (left, x :: right)

/-- Deals lines to two files by chance. The first failure ends the study. -/
def dealLines (training testing : String) (lines : List (Except Error String)) :
    Studying α Unit := do
  putText training ""
  putText testing ""
  let (left, right) := deal (α := α) {} (written lines)
  putText training (String.join left)
  putText testing (String.join right)
  lines.forM fun line => do
    let _ ← lift line

/-- Works through items until one fails, and keeps what was made. -/
def workThrough {σ τ : Type} (step : σ → τ → Studying α σ) :
    σ → List τ → Studying α (σ × Except Error Unit)
  | made, [] => return (made, .ok ())
  | made, item :: rest => do
    match ← tryCatch (return Except.ok (← step made item)) fun e => return .error e with
    | .ok made => workThrough step made rest
    | .error e => return (made, .error e)

def ensureDirectory (path : String) : Studying α Unit := do
  setFiles (← lift ((← Run.files).ensureDirectory path))

def thingOf : Value α → Studying α Nat
  | .thing id => pure id
  | _ => throw .missingPart

def databaseOfProgram (program : Nat) : Studying α Nat := do
  match ← onBench (thingAt program) with
  | .program _ _ _ (some db) => return db
  | _ => throw .missingPart

def loadFacts (path : String) : Studying α Nat := do
  onBench (factDatabase (.text path) .nothing)

def loadSource (source : String) : Studying α Nat := do
  let db ← Run.databaseAt source
  onBench (keepDatabase db)

def loadExampleSource (database : Nat) (source : String) : Studying α Nat := do
  let db ← onBench (Workbench.database database)
  let e ← Run.examplesAt db source
  onBench (keep (.examples e))

def loadProgram (features : Bool) (path : String) (database : Option Nat) : Studying α Nat := do
  let theory ← onBench (RuleSource.load (.files path))
  onBench (keepProgram features theory database {} none)

def loadExamples (database : Nat) (path : String) (asQueries : Bool) : Studying α Nat := do
  let db ← onBench (Workbench.database database)
  let e ← onBench (plainly (Run.loadExamples db path asQueries))
  onBench (keep (.examples e))

def setMaxDepth (program : Nat) (depth : Value α) : Studying α Unit := do
  let _ ← onBench (ProgramCommand.setMaxDepth.perform program [some depth])

/-- Gives all named rules the same weight, and limits the depth. -/
def prepareRules (program : Nat) (depth : Int) : Studying α Unit := do
  onBench (onModel program (Run.setRuleWeights none (.real 1) none))
  setMaxDepth program (.integer depth)

def ask (program : Nat) (mode : String) (inputs : Matrix α) : Studying α (Matrix α) := do
  let mode ← lift (Mode.parse mode)
  onBench (onModel program (Run.evaluate mode [inputs]))

def experiment (settings : List (String × Value α)) : Studying α (Value α) :=
  onBench (runExperiment (.ofList settings))

end BeliefLogic.Studies
