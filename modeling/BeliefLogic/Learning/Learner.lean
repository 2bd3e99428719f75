import BeliefLogic.Examples.Reader
import BeliefLogic.Learning.Gradients
import BeliefLogic.Program.Query

/-!
# Learners

A learner moves parameters so that answers come closer. Parameters never become negative.
-/

namespace BeliefLogic

open Scalar

/-- How a learner goes through examples. -/
inductive Method where
  | oneMode | batch | stochastic | parallel | adaptive
  deriving DecidableEq, Repr, Inhabited

inductive Tracer where
  | silent | cheap | standard | record | withAccuracy
  | unable (kind : String)
  deriving DecidableEq, Repr, Inhabited

inductive EpochTracer where
  | silent
  | standard
  | unable (kind : String)
  deriving DecidableEq, Repr, Inhabited

/-- How weights are kept small. -/
inductive Regularizer (α : Type) where
  | none
  | undefined
  | shrink (share : Datum α)
  | unable (kind : String)
  deriving Inhabited

/-- A learner with its choices. -/
structure Learner (α : Type) where
  method : Method
  epochs : Amount α
  rate : Amount α
  batchSize : Amount α
  workers : Amount α
  tracer : Tracer
  epochTracer : EpochTracer
  regularizer : Regularizer α
  deriving Inhabited

structure Moment (α : Type) where
  epoch : Option (Datum α) := none
  batch : Option (Datum α) := none
  start : Option (Datum α) := none
  mode : Option String := none
  deriving Repr, Inhabited

def Moment.ofEpoch {α : Type} (epoch : Nat) : Moment α :=
  { epoch := some (.integer epoch), start := some (.integer 0) }

namespace Run

variable {α : Type} [Scalar α]

def warnAdaptive {σ : Type} : Run α σ Unit :=
  warn "ParallelAdaGradLearner does not seem to perform well - it's probably still buggy"

/-- A step of training: puts a parameter and records the database. -/
def stepParam (p : Predicate) (x : Operand α) : Modelling α Unit := do
  putParam p x
  update fun m => { m with passed := m.database.elim m.passed m.passed.push }

def remainder (share : Datum α) : Except Error α :=
  match share.number? with
  | some x => .ok (1 - x)
  | none => .error (.unfit "-" "float" share.kind)

def regularize (r : Regularizer α) : Modelling α Unit := do
  match r with
  | .none => pure ()
  | .undefined => refuse .notDefined
  | .unable kind => fail (.noPart kind "regularizeParams")
  | .shrink share =>
    for mark in (← database).params do
      let p ← lift mark.relation
      let x ← lift ((← database).paramOperand p)
      stepParam p (← lift (do x.scaled (.real (← remainder share))))

/-- The share of no parameters at all, which is of the kind of the share. -/
def shareOfNothing (share : Datum α) : Except Error (Datum α) :=
  match share with
  | .number x => .ok (.number (0 * x))
  | .integer _ | .truth _ => .ok (.integer 0)
  | .text _ => .ok (.text "")
  | .list _ => .ok (.list [])
  | .tuple _ => .ok (.tuple [])
  | d => .error (.unfit "*" "int" d.kind)

def regularizationCost (r : Regularizer α) : Modelling α (Datum α) := do
  match r with
  | .none => return .number 0
  | .undefined => refuse .notDefined
  | .unable kind => fail (.noPart kind "regularizationCost")
  | .shrink share =>
    let db ← database
    if db.params.isEmpty then lift (shareOfNothing share)
    else
      let cost ← db.params.foldlM (fun (sum : α) mark => do
        let m ← lift (do db.param (← mark.relation))
        let squares ← lift (m.values.mapM fun x => mul? x x)
        return sum + (← lift (sum? squares))) 0
      return .number (cost * (← lift (Amount.ofDatum share).factor))

def identification (l : Learner α) (moment : Moment α) :
    Except Error (List (String × Datum α)) := do
  let epoch : List (String × Datum α) ← match moment.epoch with
    | none => pure []
    | some i => pure [("epoch", ← next i), ("maxEpoch", l.epochs.datum)]
  return (moment.batch.elim [] fun k => [("minibatch", k)]) ++ epoch ++
    (moment.mode.elim [] fun m => [("mode=" ++ m, .number 1)])
where
  next : Datum α → Except Error (Datum α)
    | .number x => .ok (.number (x + 1))
    | d => match d.integer? with
      | some n => .ok (.integer (n + 1))
      | none => .error .illTyped

def timing (moment : Moment α) : Except Error (List (String × Datum α)) :=
  match moment.start with
  | none => .ok []
  | some start => match start.number? with
    | some x => .ok [("time", .number (0 - x))]
    | none => .error (.unfit "-" "float" start.kind)

def lossFigures (l : Learner α) (labels predictions : Matrix α) :
    Modelling α (List (String × Datum α)) := do
  let entropy ← lift (labels.crossEntropy predictions)
  let cost ← regularizationCost l.regularizer
  let loss ← match cost.number? with
    | some c => pure (entropy + c)
    | none => fail .illTyped
  return [("loss", .number loss), ("crossEnt", .number entropy), ("reg", cost)]

def figures (l : Learner α) (labels predictions : Matrix α) (moment : Moment α) :
    Modelling α (List (String × Datum α)) := do
  match l.tracer with
  | .silent => return []
  | .unable kind => fail (.notFunction kind)
  | .cheap => return (← lift (identification l moment)) ++ (← lift (timing moment))
  | .standard | .record =>
    let known ← lift (identification l moment)
    return known ++ (← lossFigures l labels predictions) ++ (← lift (timing moment))
  | .withAccuracy =>
    let known ← lift (identification l moment)
    let loss ← lossFigures l labels predictions
    let accuracy ← lift (labels.accuracy predictions)
    return known ++ loss ++ [("acc", .number accuracy)] ++ (← lift (timing moment))

def figureText (x : α) : String := Text.general 6 (toFloat x)

/-- A figure of any kind as reports print it, which must be a number. -/
def printedFigure (d : Datum α) : Except Error String :=
  match d.number? with
  | some x => .ok (figureText x)
  | none => .error .illTyped

/-- Counts the figures of a batch, and prints them if the tracer does. -/
def report (l : Learner α) (labels predictions : Matrix α) (moment : Moment α) (g : Gradients α) :
    Modelling α (Gradients α) := do
  let start := g.figures.put "n" (.integer labels.height)
  let found ← figures l labels predictions moment
  let figures := found.foldl (fun (c : Figures α) (k, d) => c.put k d) start
  let shown ← lift (found.mapM fun (k, d) => return k ++ " " ++ (← printedFigure d))
  match l.tracer with
  | .silent | .record => pure ()
  | _ => say (" ".intercalate shown)
  return { g with figures }

def epochStatistics : List (String × String) :=
  [("crossEnt", "avg"), ("crossEnt", "tot"), ("loss", "tot"), ("reg", "avg"), ("time", "min"),
    ("time", "avg"), ("time", "max"), ("time", "tot"), ("n", "tot")]

def reportEpoch {σ : Type} (l : Learner α) (epoch : Nat) (c : Counter α) : Run α σ Unit := do
  match l.epochTracer with
  | .silent => pure ()
  | .unable kind => fail (.notFunction kind)
  | .standard =>
    let found := (← lift (identification l { epoch := some (.integer epoch) })) ++
      (epochStatistics.map fun (k, which) =>
        (which ++ "." ++ k, .number (c.figure (.statistic (.plain k) which)))) ++
      [("minibatches", .number (c.figure (.plain "counters")))]
    say (" ".intercalate (← lift (found.mapM fun (k, d) => return k ++ "=" ++ (← printedFigure d))))

def predict (mode : Mode) (inputs : Matrix α) : Modelling α (Matrix α) := evaluate mode [inputs]

def reportTrouble {σ : Type} (mode : Mode) (e : Error) : Run α σ Unit :=
  say (Text.parenthesized [Text.quoted ("Trouble with mode " ++ mode.text ++ ":"), e.shown])

/-- The predictions for all examples of a mode; trouble is reported. -/
def predictMode (mode : Mode) (inputs : Operand α) : Modelling α (Matrix α) :=
  tryCatch (do predict mode (← planInput (← queryPlan mode) inputs)) fun e => do
    reportTrouble mode e
    fail e

def predictExamples (e : Examples α) : Modelling α (Examples α) := do
  let found ← e.inputs.entries.mapM fun (mode, x) => do
    return (mode, .matrix (← predictMode mode x))
  return { inputs := e.inputs, outputs := ⟨found⟩ }

def stackByMode (items : List (Mode × Matrix α)) : Except Error (Dictionary Mode (Matrix α)) := do
  let groups := items.foldl (fun (d : Dictionary Mode (List (Matrix α))) (mode, m) =>
    d.change mode [] (· ++ [m])) {}
  return ⟨← groups.entries.mapM fun (mode, ms) => return (mode, ← Matrix.stack ms)⟩

/-- The predictions for minibatches, joined again for each mode. -/
def predictEach (batches : List (Batch α)) : Modelling α (Examples α) := do
  let found ← batches.mapM fun b => return (b, ← predict b.mode b.inputs)
  return .ofMatrices (← lift (stackByMode (found.map fun (b, _) => (b.mode, b.inputs))))
    (← lift (stackByMode (found.map fun (b, p) => (b.mode, p))))

/-- Predictions for examples, minibatch after minibatch in shuffled turns. -/
def predictBatches (shuffle : List Nat → List Nat) (l : Learner α) (e : Examples α) :
    Modelling α (Examples α) := do
  predictEach (← lift ((← lift (e.batches shuffle l.batchSize)).mapM id))

def learnerPredictions (l : Learner α) (e : Examples α) : Modelling α (Examples α) :=
  match l.method with
  | .parallel | .adaptive => do predictBatches (← nextShuffling).turns l e
  | _ => predictExamples e

/-- The gradients of the cross entropy. The plan must end in a softmax. -/
def traceLoss (l : Learner α) (mode : Mode) (x : Matrix α) (y : Operand α) (moment : Moment α) :
    Modelling α (Gradients α × Scratch α) := do
  let plan ← queryPlan mode
  match plan with
  | .softmax _ inner =>
    let (p, scratch) ← evaluatePlan plan [x]
    let db ← database
    let delta ← lift (y.less p)
    let (_, scratch) ← within scratch (inner.backprop db delta)
    let y ← lift y.rows
    return (← report l y p moment { sums := scratch.gradients }, scratch)
  | _ => refuse .notSoftmax

def lossGradients (l : Learner α) (mode : Mode) (x : Matrix α) (y : Operand α) (moment : Moment α) :
    Modelling α (Gradients α) := return (← traceLoss l mode x y moment).1

/-- A parameter moved along a gradient, with no value below zero. -/
def moved (x gradient : Operand α) (rate : Amount α) : Except Error (Matrix α) := do
  let m ← (← x.add (← gradient.scaled rate)).rows
  return m.clipped (some 0) greatestSingle

def moveParams (g : Gradients α) (rate : Amount α) : Modelling α Unit := do
  for (p, delta) in g.sums.entries do
    let x ← lift ((← database).paramOperand p)
    stepParam p (.matrix (← lift (moved x (.matrix delta) rate)))

def applyUpdate (g : Gradients α) (rate : Amount α) : Modelling α Unit := do
  let (_, fitted) ← within g fitGradients
  moveParams fitted rate

/-- The mean change or the share of all examples, confined. -/
def meanUpdate (s : Settings α) (p : Predicate) (delta : Matrix α) (n total : α) :
    Except Error (Matrix α) := do
  let delta ← delta.confined s.leastGradient s.greatestGradient
  let quotient (x y : α) : Except Error α :=
    if isZero y then .error .divisionByZero else .ok (x / y)
  if p.arity = 1 then
    let share ← if isZero total then pure 1 else quotient n total
    (← delta.mean).scale share
  else
    delta.scale (← if isZero total then quotient 1 n else quotient 1 total)

end Run

end BeliefLogic
