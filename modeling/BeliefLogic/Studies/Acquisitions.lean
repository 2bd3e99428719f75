import BeliefLogic.Studies.Kinship

/-!
# Acquisitions

A recursive program on companies and who acquired them is trained and tested.
-/

namespace BeliefLogic.Studies

open Workbench

variable {α : Type} [Scalar α]

def loadAcquisitions : Studying α Trainee := do
  ensureDirectory "tmp-cache"
  let stem := "top-1000-near-google"
  let copy := "tmp-cache/" ++ stem
  let db ← loadSource (copy ++ ".db|" ++ stem ++ ".cfacts:" ++ stem ++ "-fact.cfacts:" ++ stem ++
    "-rule.cfacts")
  let training ← loadExampleSource db (copy ++ "-train.dset|raw/" ++ stem ++ ".train.examples")
  let testing ← loadExampleSource db (copy ++ "-test.dset|raw/" ++ stem ++ ".test.examples")
  let program ← loadProgram true (stem ++ "-recursive.ppr") (some db)
  prepareRules program 4
  return { program, training, testing }

def acquisitionSettings (t : Trainee) : Studying α (List (String × Value α)) := do
  let l : Learner α := { Learner.standard .batch with epochs := .whole 5 }
  let learner ← onBench (keepLearner l t.program)
  return [("prog", .thing t.program), ("trainData", .thing t.training),
    ("testData", .thing t.testing), ("savedModel", .text "top-1000-near-google-trained.db"),
    ("savedTestPredictions", .text "tmp-cache/top-1000-near-google-test.solutions.txt"),
    ("savedTrainExamples", .text "tmp-cache/top-1000-near-google-train.examples"),
    ("savedTestExamples", .text "tmp-cache/top-1000-near-google-test.examples"),
    ("learner", .thing learner)]

def measureAcquisitions : Studying α (Value α) := do
  experiment (← acquisitionSettings (← loadAcquisitions))

def sayResult : Value α → Studying α Unit
  | .tuple [accuracy, loss] => sayAll ["acc,loss", accuracy.shown, loss.shown]
  | _ => throw .malformed

def runAcquisitions : Studying α Unit := do sayResult (← measureAcquisitions)

inductive AcquisitionTask where
  | prepare
  | measure
  deriving DecidableEq, Repr

def AcquisitionTask.perform : AcquisitionTask → Studying α (Value α)
  | .prepare => do
    let settings ← acquisitionSettings (← loadAcquisitions)
    return .dictionary (settings.map fun (k, v) => (.text k, v))
  | .measure => return .list [← measureAcquisitions]

end BeliefLogic.Studies
