import BeliefLogic.Studies.Basic

/-!
# Kinship

A program that tells how people are related is trained and tested.
-/

namespace BeliefLogic.Studies

open Workbench

variable {α : Type} [Scalar α]

structure Trainee where
  program : Nat
  training : Nat
  testing : Nat
  deriving DecidableEq, Repr

def loadKinship : Studying α Trainee := do
  let db ← loadSource "tmp-cache/kinship.db|inputs/kinship.cfacts:inputs/kinship-rule.cfacts"
  let training ← loadExampleSource db "tmp-cache/kinship-train.dset|inputs/kinship-train.examples"
  let testing ← loadExampleSource db "tmp-cache/kinship-test.dset|inputs/kinship-test.examples"
  let program ← loadProgram true "kinship-train-isg.ppr" (some db)
  prepareRules program 4
  return { program, training, testing }

def measureKinship (program training testing : Value α) : Studying α (Value α) :=
  experiment [("prog", program), ("trainData", training), ("testData", testing),
    ("savedModel", .text "tmp-cache/kinship-trained.db"),
    ("savedTestPredictions", .text "tmp-cache/kinship-test.solutions.txt"),
    ("savedTrainExamples", .text "tmp-cache/kinship-train.examples"),
    ("savedTestExamples", .text "tmp-cache/kinship-test.examples")]

def runKinship : Studying α Unit := do
  ensureDirectory "tmp-cache"
  let t ← loadKinship
  Run.say (← measureKinship (.thing t.program) (.thing t.training) (.thing t.testing)).shown
  Run.say ""

inductive KinshipTask where
  | load | run | measure | compareFormulas
  deriving DecidableEq, Repr

def KinshipTask.perform (args : Args α) : KinshipTask → Studying α (Value α)
  | .load => do
    let t ← loadKinship
    return .tuple [.thing t.program, .thing t.training, .thing t.testing]
  | .run => do
    runKinship
    return .nothing
  | .measure => do
    measureKinship (← argument args 0) (← argument args 1) (← argument args 2)
  | .compareFormulas => return .dictionary []

end BeliefLogic.Studies
