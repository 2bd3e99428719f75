import BeliefLogic.Learning.Learner

/-!
# Training

One mode at once, mode after mode, minibatch after minibatch, or all minibatches independently.
-/

namespace BeliefLogic.Run

open Text Scalar

variable {α : Type} [Scalar α]

abbrev Training (α : Type) := Run α (Model α × Examples α)

def onModel {β : Type} (act : Modelling α β) : Training α β :=
  focus (·.1) (fun m s => (m, s.2)) act

/-- The minibatches of an epoch, after the examples were reordered. -/
def epochBatches (l : Learner α) : Training α (List (Except Error (Batch α))) :=
  focus (·.2) (fun e s => (s.1, e)) (minibatches l.batchSize true)

def epochList {σ : Type} (l : Learner α) : Run α σ (List Nat) :=
  return List.range (← lift l.epochs.rounds)

def momentText (moment : Moment α) (mode : String) : String :=
  let item (k : String) (n : Option (Datum α)) : List String :=
    n.elim [] fun n => ["'" ++ k ++ "': " ++ n.shown]
  "\x7b" ++ ", ".intercalate (item "i" moment.epoch ++ item "k" moment.batch ++
    ["'startTime': 0", "'mode': " ++ mode]) ++ "\x7d"

/-- Learns from one batch and merges its figures. Trouble is reported. -/
def learnBatch (l : Learner α) (mode : Mode) (x : Matrix α) (y : Except Error (Operand α))
    (moment : Moment α) (shown : String) (merged : Counter α) : Training α (Counter α) :=
  let act : Training α (Counter α) := onModel do
    let g ← lossGradients l mode x (← lift y) moment
    regularize l.regularizer
    applyUpdate g l.rate
    lift (merged.mergeInto [.ofFigures g.figures])
  tryCatch act fun e => do
    say (parenthesized [quoted ("Unexpected error at " ++ momentText moment shown ++ ":"),
      e.shown])
    fail e

def trainMode (l : Learner α) (mode : Mode) (x : Matrix α) (y : Operand α) : Modelling α Unit := do
  for i in ← epochList l do
    let g ← lossGradients l mode x y (.ofEpoch i)
    regularize l.regularizer
    applyUpdate g l.rate

def trainByMode (l : Learner α) : Training α Unit := do
  for i in ← epochList l do
    let e := (← state).2
    let merged ← e.modes.foldlM (fun (merged : Counter α) mode => do
      let x ← lift (e.inputsFor mode)
      let moment : Moment α := { Moment.ofEpoch i with mode := some mode.text }
      learnBatch l mode x (Examples.find e.outputs mode) moment (quoted mode.text) merged) {}
    reportEpoch l i merged

def trainByBatch (l : Learner α) : Training α Unit := do
  for i in ← epochList l do
    let batches ← epochBatches l
    let merged ← batches.zipIdx.foldlM (fun (merged : Counter α) (b, k) => do
      let b ← lift b
      let moment : Moment α :=
        { Moment.ofEpoch i with batch := some (.integer (k + 1)), mode := some b.mode.text }
      learnBatch l b.mode b.inputs (.ok (.matrix b.outputs)) moment b.mode.shown merged) {}
    reportEpoch l i merged

/-- The gradients of the minibatches of an epoch, and how many examples each has. -/
def epochGradients (l : Learner α) (epoch : Nat) : Training α (List (Nat × Gradients α)) := do
  let batches ← lift ((← epochBatches l).mapM id)
  batches.zipIdx.mapM fun (b, k) => do
    let moment : Moment α :=
      { Moment.ofEpoch epoch with batch := some (.integer k), mode := some b.mode.text }
    return (b.inputs.height, ← onModel (lossGradients l b.mode b.inputs (.matrix b.outputs) moment))

/-- Sends the parameters to all workers. -/
def shareParams (l : Learner α) : Modelling α Unit := do
  let db ← database
  for mark in db.params do
    let _ ← lift (do db.paramOperand (← mark.relation))
  match l.workers with
  | .real x => if !Scalar.isZero x then fail .illTyped
  | _ => pure ()

/-- Moves parameters along the gradients of an epoch, by shares. -/
def applyEpoch (l : Learner α) (found : List (Nat × Gradients α)) (total : Nat) :
    Modelling α Unit := do
  regularize l.regularizer
  for (n, g) in found do
    if total = 0 then fail .divisionByZero
    applyUpdate g (.real ((← lift l.rate.number) * (Scalar.ofNat n / Scalar.ofNat total)))

def trainParallel (l : Learner α) : Training α Unit := do
  for i in ← epochList l do
    let found ← epochGradients l i
    onModel do
      applyEpoch l found (tally (found.map (·.1)))
      shareParams l
    reportEpoch l i (← lift (Counter.merge (found.map fun (_, g) => .ofFigures g.figures)))

def totalGradient (s : Settings α) (found : List (Nat × Gradients α)) :
    Except Error (Gradients α) :=
  let total : α := Scalar.ofNat (tally (found.map (·.1)))
  found.foldlM (fun sum (n, g) =>
    g.sums.entries.foldlM (fun sum (p, m) => do
      sum.accumulate p (← meanUpdate s p m (Scalar.ofNat n) total)) sum) {}

/-- The reciprocal root of the sum of the squares of each gradient. -/
def adaptedRates (squares : Gradients α) : Except Error (Gradients α) :=
  squares.map fun x => do
    let x ← Scalar.add? x (Scalar.single (ofLiteral (.decimal false 1 (-1))))
    div? 1 (← sqrt? x)

def shapePair (m : Matrix α) : String :=
  "(" ++ natural m.height ++ ", " ++ natural m.width ++ ")"

def reportShapes (g : Gradients α) : Modelling α Unit := do
  let db ← database
  for mark in db.params do
    let p ← lift mark.relation
    let m ← lift (db.param p)
    say ("('reg', " ++ quoted p.functor ++ ", '/', " ++ Text.integer p.arity ++
      ", 'm shape', " ++ shapePair m ++ ")")
    match g.sums.get? p with
    | some m => say ("('vs totalGradient shape', " ++ shapePair m ++ ")")
    | none => say "not in totalGradient"

/-- Learns as `trainParallel` does, with rates that adapt to past gradients. -/
def trainAdaptive (l : Learner α) : Training α Unit := do
  let _ ← (← epochList l).foldlM (fun (squares : Gradients α) i => do
    let found ← epochGradients l i
    let total ← lift (totalGradient (← settings) found)
    let squares ← lift (do squares.add (← total.map fun x => mul? x x))
    let rates ← lift (adaptedRates squares)
    let scaled ← lift (total.sums.entries.mapM fun (p, m) => do
      match rates.sums.get? p with
      | some r => return (p, ← m.hadamard r)
      | none => throw .notFound)
    onModel do
      regularize l.regularizer
      reportShapes { sums := ⟨scaled⟩ }
      for (p, g) in scaled do
        let x ← lift ((← database).paramOperand p)
        stepParam p (.matrix (← lift (moved x (.matrix g) l.rate)))
      shareParams l
    reportEpoch l i (← lift (Counter.merge (found.map fun (_, g) => .ofFigures g.figures)))
    return squares) {}

def train (l : Learner α) : Training α Unit :=
  match l.method with
  | .oneMode => fail .illTyped
  | .batch => trainByMode l
  | .stochastic => trainByBatch l
  | .parallel => trainParallel l
  | .adaptive => trainAdaptive l

/-- The accuracy of predictions over all examples; none without examples. -/
def accuracyOf (gold predicted : Examples α) : Except Error (Option α) := do
  let (sum, total) ← gold.modes.foldlM (fun (sum, total) mode => do
    if !predicted.has mode then throw (.refused (.noPredictions "Accuracy" mode.text))
    let y ← gold.outputsFor mode
    let weight : α := Scalar.ofNat y.height
    return (sum + weight * (← y.accuracy (← predicted.outputsFor mode)), total + weight))
    ((0 : α), (0 : α))
  return if isZero total then none else some (sum / total)

/-- The cross entropy of predictions, in all or for each example. -/
def crossEntropyOf (gold predicted : Examples α) (perExample : Bool) : Except Error α :=
  gold.modes.foldlM (fun (sum : α) mode => do
    if !predicted.has mode then throw (.refused (.noPredictions "CrossEntropy" mode.text))
    let y ← gold.outputsFor mode
    let p ← predicted.outputsFor mode
    return sum + (← if perExample then y.meanCrossEntropy p else y.crossEntropy p)) 0

end BeliefLogic.Run
