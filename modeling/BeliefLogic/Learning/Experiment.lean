import BeliefLogic.Learning.Training

/-!
# Experiments

An experiment measures a program on examples before and after training.
-/

namespace BeliefLogic

open Text Scalar

variable {α : Type}

def Method.title : Method → String
  | .oneMode => "tensorlog.learn.OnePredFixedRateGDLearner"
  | .batch => "tensorlog.learn.FixedRateGDLearner"
  | .stochastic => "tensorlog.learn.FixedRateSGDLearner"
  | .parallel => "tensorlog.plearn.ParallelFixedRateGDLearner"
  | .adaptive => "tensorlog.plearn.ParallelAdaGradLearner"

def Learner.standard [Scalar α] (method : Method) : Learner α where
  method
  epochs := .whole 10
  rate := .real (Scalar.ofNat 1 / Scalar.ofNat 10)
  batchSize := .whole 100
  workers := .whole 10
  tracer := .standard
  epochTracer := .standard
  regularizer := .none

def Learner.usual [Scalar α] (method : Method) : Learner α :=
  let l : Learner α := .standard method
  match method with
  | .parallel => { l with tracer := .record }
  | .adaptive => { l with tracer := .record, rate := .real (Scalar.ofNat 1 / Scalar.ofNat 2) }
  | _ => l

structure Experiment (α : Type) where
  learner : Learner α
  target : Option Mode := none
  archive : Option (Except Error (Database α)) := none
  savedModel : Option String := none
  savedAnswers : Option String := none
  savedTesting : Option String := none
  savedTraining : Option String := none

structure Trial (α : Type) where
  model : Model α
  training : Examples α
  testing : Option (Examples α) := none
  shared : Bool := false

def Trial.tests (t : Trial α) : Option (Examples α) := if t.shared then some t.training else t.testing

/-- Accuracy and cross entropy; without examples there is no accuracy. -/
abbrev Score (α : Type) := Option α × α

namespace Run

variable {σ β : Type} [Scalar α]

abbrev Trying (α : Type) := Run α (Trial α)

def onTrialModel (act : Modelling α β) : Trying α β :=
  focus (·.model) (fun model t => { t with model }) act

def announce (what : String) : Run α σ Unit := say (parenthesized [quoted what, "'...'"])

def timed (what : String) (act : Run α σ β) : Run α σ β := do
  announce what
  let b ← act
  say (parenthesized [quoted what, "'... done in 0.000 sec'"])
  return b

def accuracyText (accuracy : Option α) : String :=
  (accuracy.map fun x => shortest (toFloat x)).getD "0"

def score (what on : String) (gold predicted : Examples α) : Run α σ (Score α) := do
  let accuracy ← lift (accuracyOf gold predicted)
  let entropy ← lift (crossEntropyOf gold predicted true)
  say (parenthesized ["'eval'", quoted what, "'on'", quoted on, "': acc'",
    accuracyText accuracy, "'xent/ex'", shortest (toFloat entropy)])
  return (accuracy, entropy)

/-- Answers by weight, greatest first, then by name, last first. -/
def ranked (d : Dictionary (Option String) α) : Except Error (List (Option String × α)) :=
  let unnamed := d.get? none
  if d.entries.any fun (name, x) => name.isSome && unnamed.any fun y => isZero (x - y) then
    .error .illTyped
  else .ok (d.entries.mergeSort fun (a, x) (b, y) =>
    decide (y < x) || (!decide (x < y) && decide (b.getD "" ≤ a.getD "")))

def writeSolution (functor : String) (number : Int) (input : Option String)
    (answers : Dictionary (Option String) α) : Run α String Unit := do
  let query := functor ++ "(" ++ nameText input
  emit ("# proved " ++ Text.integer number ++ "\t" ++ query ++ ",X1).\t999 msec\n")
  for ((name, w), r) in (← lift (ranked answers)).zipIdx do
    emit (natural (r + 1) ++ "\t" ++ fixed 18 (toFloat w) ++ "\t" ++ query ++
      "," ++ nameText name ++ ").\n")

/-- Writes the answers to queries, and returns the last position. -/
def writeSolutions (path functor : String) (db : Except Error (Database α))
    (x p : Except Error (Matrix α)) (append : Bool) (start : Int) : Run α σ Nat :=
  writing path append do
    let relation : Predicate := ⟨functor, 2⟩
    let db ← lift db
    let xs ← lift (do db.matrixSymbols (← x) (db.schema.domain relation))
    let ps ← lift (do db.matrixSymbols (← p) (db.schema.range relation))
    if xs.isEmpty then fail .malformed
    for (input, i) in xs.zipIdx do
      match input.keys with
      | [name] => writeSolution functor (i + 1 + start) name (ps.getD i {})
      | _ => refuse (.notOneHotFor functor i (weightsText input))
    return xs.length - 1

def archived (e : Experiment α) : Trying α (Database α) :=
  match e.archive with
  | some db => lift db
  | none => onTrialModel database

def saveAnswers (e : Experiment α) (path : String) (tests predicted : Examples α) :
    Trying α Unit := do
  putText path ""
  timed "saving test predictions" do
    let _ ← tests.modes.foldlM (fun (start : Nat) mode => do
      let db ← archived e
      let x ← lift (predicted.inputsFor mode)
      let p ← lift (predicted.outputsFor mode)
      return start + (← writeSolutions path mode.functor (.ok db) (.ok x) (.ok p) true start)) 0

def trialPredictions (l : Learner α) (what : String) (e : Examples α) : Trying α (Examples α) :=
  timed what (onTrialModel (learnerPredictions l e))

def keepTarget (e : Experiment α) : Trying α Unit := do
  match e.target with
  | none => pure ()
  | some mode =>
    let t ← state
    let training ← lift (t.training.extract mode)
    let testing ← lift (t.tests.mapM (·.extract mode))
    setState { t with training, testing, shared := false }

/-- Runs an experiment, and returns the last score on the test examples. -/
def perform (e : Experiment α) : Trying α (Option (Score α)) := do
  keepTarget e
  let l := e.learner
  let before ← trialPredictions l "running untrained theory on train data" (← state).training
  let _ ← score "untrained theory" "train" (← state).training before
  if let some tests := (← state).tests then
    let before ← trialPredictions l "running untrained theory on test data" tests
    let _ ← score "untrained theory" "test" tests before
  timed ("training " ++ l.method.title) (focus (fun t => (t.model, t.training))
    (fun (model, training) t => { t with model, training }) (train l))
  let trial ← state
  let after ← trialPredictions l "running trained theory on train data" trial.training
  let tested ← trial.tests.mapM fun tests => do
    return (tests, ← trialPredictions l "running trained theory on test data" tests)
  let _ ← score "..trained theory" "train" trial.training after
  let result ← tested.mapM fun (tests, predicted) =>
    score "..trained theory" "test" tests predicted
  let db := archived e
  if let some path := e.savedModel then
    timed "saving trained model" do saveDatabase (← db) path
  if let some (tests, predicted) := tested then
    if let some path := e.savedAnswers then saveAnswers e path tests predicted
    if let some path := e.savedTesting then
      timed "saving test examples" do
        writeExamples tests path (.ok (← db)) false (.ok tests.modes)
  if let some path := e.savedTraining then
    timed "saving train examples" do
      writeExamples trial.training path (.ok (← db)) false (.ok trial.training.modes)
  if let (some answers, some tests, true) := (e.savedAnswers, e.savedTesting, tested.isSome) then
    say ("ready for commands like: proppr eval " ++ tests ++ " " ++ answers ++
      " --metric auc --defaultNeg")
  return result

end Run

end BeliefLogic
