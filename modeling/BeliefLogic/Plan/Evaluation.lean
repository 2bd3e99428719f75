import BeliefLogic.Matrix.Adaptive
import BeliefLogic.Plan.Listing

/-!
# Evaluation of plans

Evaluation keeps the result of every node; going back from a change uses what was kept.
-/

namespace BeliefLogic

open Text Scalar

/-- The values of the variables of a sequence, and the changes that came back. -/
structure Bindings (α : Type) where
  values : Dictionary String (Matrix α) := {}
  deltas : Dictionary String (Matrix α) := {}
  deriving Inhabited

/-- The result of a node and its change. -/
structure Cell (α : Type) where
  output : Option (Matrix α) := none
  delta : Option (Matrix α) := none
  bindings : Option (Bindings α) := none
  deriving Inhabited

/-- What an evaluation keeps by number. -/
structure Scratch (α : Type) where
  cells : Std.HashMap Nat (Cell α) := {}
  gradients : Dictionary Predicate (Matrix α) := {}
  deriving Inhabited

variable {α : Type}

namespace Bindings

def value (b : Bindings α) (x : String) : Except Error (Matrix α) :=
  match b.values.get? x with
  | some m => .ok m
  | none => .error (.noEntry (quoted x))

def delta (b : Bindings α) (x : String) : Except Error (Matrix α) :=
  match b.deltas.get? x with
  | some m => .ok m
  | none => .error (.noEntry (quoted x))

def bind (b : Bindings α) (x : String) (m : Matrix α) : Bindings α :=
  { b with values := b.values.put x m }

def setDelta (b : Bindings α) (x : String) (m : Matrix α) : Bindings α :=
  { b with deltas := b.deltas.put x m }

end Bindings

namespace Scratch

def cell (s : Scratch α) (id : Nat) : Cell α := s.cells.getD id {}

def change (s : Scratch α) (id : Nat) (f : Cell α → Cell α) : Scratch α :=
  { s with cells := s.cells.insert id (f (s.cell id)) }

variable [Scalar α]

def accumulate (gradients : Dictionary Predicate (Matrix α)) (p : Predicate) (m : Matrix α) :
    Except Error (Dictionary Predicate (Matrix α)) :=
  match gradients.get? p with
  | none => .ok (gradients.put p m)
  | some sum => return gradients.put p (← sum.add m)

end Scratch

namespace Action

variable [Scalar α]

def eval (s : Settings α) (db : Database α) (b : Bindings α) (type : Option String) :
    Action → Except Error (Matrix α)
  | .preimage mode => db.preimage mode
  | .vector mode => do (← db.rowOperand mode).inspected s.careful "data"
  | .oneHot _ constant => db.oneHot constant type
  | .product source mode transpose => do
    let rows ← b.value source
    (← db.operand mode transpose).carry rows
  | .plugin _ _ => .error (.refused .outsideRelation)
  | .hadamard left right => do (← b.value left).broadcastMultiply s.denseLimit (← b.value right)
  | .weighted weight row => do
    (← b.value row).weighted s.denseWeighting s.denseLimit (← b.value weight)

/-- Passes the change of an action's result back to its operands. -/
def back (s : Settings α) (db : Database α) (target : String) (b : Bindings α) :
    Action → Except Error (Bindings α)
  | .preimage _ => .error (.refused .preimageGradient)
  | .vector _ => .ok b
  | .oneHot _ _ => .ok b
  | .product source mode transpose => do
    let change ← b.delta target
    return b.setDelta source (← (← db.operand mode !transpose).carry change)
  | .plugin _ _ => .error (.refused .outsideRelation)
  | .hadamard left right => do
    let b := b.setDelta left
      (← (← b.delta target).broadcastMultiply s.denseLimit (← b.value right))
    return b.setDelta right
      (← (← b.delta target).broadcastMultiply s.denseLimit (← b.value left))
  | .weighted weight row => do
    let b := b.setDelta row
      (← (← b.delta target).weighted s.denseWeighting s.denseLimit (← b.value weight))
    let change ← (← b.delta target).broadcastMultiply s.denseLimit (← b.value row)
    return b.setDelta weight
      (← (← b.value weight).weighted s.denseWeighting s.denseLimit change)

/-- The change of a parameter that an action's result depends on. -/
def gradient (db : Database α) (target : String) (b : Bindings α) :
    Action → Except Error (Option (Predicate × Matrix α))
  | .vector mode =>
    if db.isParam mode.predicate then return some (mode.predicate, ← b.delta target)
    else .ok none
  | .product source mode transpose => do
    if db.isParam mode.predicate then
      let update ← (← b.value source).transpose.mul (← b.delta target)
      let update := if ← Database.isTransposed mode transpose then update.transpose else update
      return some (mode.predicate, update)
    else return none
  | _ => .ok none

end Action

namespace Run

variable {σ : Type} [Scalar α]

/-- Reports dense copies of which an elementwise product would make use. -/
def reportProduct (m n : Matrix α) : Run α σ Unit := do
  match m.needBroadcast n with
  | .ok true => reportCopy (m.denseCopies (← settings).denseLimit n)
  | _ => pure ()

def reportWeighting (m n : Matrix α) : Run α σ Unit := do
  let s ← settings
  if s.denseWeighting then reportCopy (m.denseCopies s.denseLimit n)

def reportAction (b : Bindings α) : Action → Run α σ Unit
  | .hadamard left right =>
    match b.value left, b.value right with
    | .ok m, .ok n => reportProduct m n
    | _, _ => pure ()
  | .weighted weight row =>
    match b.value row, b.value weight with
    | .ok m, .ok n => reportWeighting m n
    | _, _ => pure ()
  | _ => pure ()

/-- Reports dense copies that going back through an action would make. -/
def reportBack (target : String) (b : Bindings α) (a : Action) : Run α σ Unit := do
  match b.delta target with
  | .error _ => pure ()
  | .ok d =>
    match a with
    | .hadamard left right =>
      match b.value left, b.value right with
      | .ok m, .ok n => do reportProduct d n; reportProduct d m
      | _, _ => pure ()
    | .weighted weight row =>
      match b.value row, b.value weight with
      | .ok m, .ok n => do
        reportWeighting d n
        reportProduct d m
        let s ← settings
        match d.broadcastMultiply s.denseLimit m with
        | .ok change => reportWeighting n change
        | .error _ => pure ()
      | _, _ => pure ()
    | _ => pure ()

/-- Checks a matrix for undefined values, if the settings ask for it. -/
def checkDefined (m : Matrix α) (context : String) : Run α σ Unit := do
  if (← settings).careful then
    require (!m.values.any isUndefined) (.undefinedValue context)

def requireId : Option Nat → Run α σ Nat
  | some n => pure n
  | none => fail .missingPart

def storageText (m : Matrix α) : String :=
  "nnz " ++ natural m.stored ++ " rows " ++ natural m.height ++ " cols " ++
    natural m.width

/-- The weights of a matrix by row and symbol, as reports print them. -/
def symbolsText (db : Database α) (m : Matrix α) : Run α σ String := do
  return Database.rowsText (← lift (db.matrixSymbols m none))

def greatestText (m : Matrix α) : String :=
  match m.greatest? with
  | some x => shortest (toFloat x)
  | none => "-1"

abbrev Evaluating (α : Type) := Run α (Scratch α)

def changeCell (id : Nat) (f : Cell α → Cell α) : Evaluating α Unit := update (·.change id f)

/-- Tells that a step is evaluated, if the settings ask for it. -/
def tellStep (s : Step) : Evaluating α Unit := do
  if (← settings).traceOperations then print ("op eval " ++ s.shown ++ " ")

/-- Tells what a step has stored, as far as the settings ask for it. -/
def tellStored (db : Database α) (m : Matrix α) : Evaluating α Unit := do
  let choice ← settings
  if choice.traceOperations then
    print ("stores " ++ storageText m ++ " ")
    if !(← lift (choice.tracedEntries.isExceededBy m.stored)) then
      print ("holding " ++ (← symbolsText db m) ++ " ")
    if choice.traceMaxima then print ("max " ++ greatestText m ++ " ")
    say ""

/-- Checks what a step has stored, if the settings ask for it. -/
def checkStored (s : Step) (m : Matrix α) : Evaluating α Unit := do
  if (← settings).checkUndefined then checkDefined m ("saving " ++ s.target)

/-- Evaluates a step, keeps its result, and tells what settings ask for. -/
def evaluated (db : Database α) (s : Step) (act : Evaluating α (Bindings α)) :
    Evaluating α (Bindings α) := do
  tellStep s
  let b ← act
  let m ← lift (b.value s.target)
  let id ← requireId s.info.id
  changeCell id fun c => { c with output := some m }
  tellStored db m
  checkStored s m
  return b

def tellPlan (what : String) (p : Plan) : Evaluating α Unit := do
  if (← settings).traceFunctions then
    say (what ++ ":\n" ++ "\n. . ".intercalate (← planLines p))

/-- Tells the inputs and the result of a plan, if the settings ask for it. -/
def tellValues (db : Database α) (inputs : List (Matrix α)) (m : Matrix α) :
    Evaluating α Unit := do
  let choice ← settings
  if choice.traceFunctions && choice.traceValues then
    for (x, k) in inputs.zipIdx do
      say ("('. input', " ++ natural (k + 1) ++ ", ':', " ++ (← symbolsText db x) ++ ")")
    say ("('. result :', " ++ (← symbolsText db m) ++ ")")

/-- Evaluates a plan, keeps its result, and tells what settings ask for. -/
def invoked (db : Database α) (p : Plan) (inputs : List (Matrix α))
    (act : Evaluating α (Matrix α)) : Evaluating α (Matrix α) := do
  tellPlan "Invoking" p
  let m ← act
  let id ← requireId p.id?
  changeCell id fun c => { c with output := some m }
  tellPlan "Function completed" p
  tellValues db inputs m
  return m

end Run

open Run

variable [Scalar α]

mutual

def Plan.eval (db : Database α) (inputs : List (Matrix α)) : Plan → Evaluating α (Matrix α)
  | .null i m => invoked db (.null i m) inputs do
    match inputs with
    | [] => fail .outOfRange
    | x :: _ => lift (db.zeros x.height i.outputType)
  | .log i p => invoked db (.log i p) inputs do
    lift ((← Plan.eval db inputs p).mapM log1p?)
  | .softmax i p => invoked db (.softmax i p) inputs do
    Run.softmax (← Plan.eval db inputs p)
  | .sum i ps => invoked db (.sum i ps) inputs do
    match ← Plan.evalAll db inputs ps with
    | [] => fail .outOfRange
    | m :: ms => lift (ms.foldlM Matrix.add m)
  | .sequence i xs y ss r => invoked db (.sequence i xs y ss r) inputs do
    let id ← requireId i.id
    require (xs.length == inputs.length) (.unequalBindings xs.length inputs.length)
    let b ← Step.evalAll db ss { values := .ofList (xs.zip inputs) }
    changeCell id fun c => { c with bindings := some b }
    lift (b.value y)

def Plan.evalAll (db : Database α) (inputs : List (Matrix α)) :
    List Plan → Evaluating α (List (Matrix α))
  | [] => return []
  | p :: ps => do
    let m ← Plan.eval db inputs p
    return m :: (← Plan.evalAll db inputs ps)

def Step.eval (db : Database α) : Step → Bindings α → Evaluating α (Bindings α)
  | .act i a, b => evaluated db (.act i a) do
    reportAction b a
    return b.bind i.target (← lift (a.eval (← settings) db b i.type))
  | .call i x m d p, b => evaluated db (.call i x m d p) do
    let source ← lift (b.value x)
    return b.bind i.target (← Plan.eval db [source] p)

def Step.evalAll (db : Database α) : List Step → Bindings α → Evaluating α (Bindings α)
  | [], b => return b
  | s :: ss, b => do Step.evalAll db ss (← Step.eval db s b)

end

namespace Run

/-- Tells that the way back goes through a step, if asked. -/
def tellReturn (db : Database α) (s : Step) (b : Bindings α) : Evaluating α Unit := do
  let choice ← settings
  if choice.traceOperations then
    let d ← lift (b.delta s.target)
    print ("call op bp " ++ s.shown ++ " delta[ " ++ s.target ++ " ] shape (" ++
      natural d.height ++ ", " ++ natural d.width ++ ") ")
    if choice.traceChanges then say (← symbolsText db d) else say ""

/-- Tells that the way back went through a step, if asked. -/
def tellReturned (s : Step) : Evaluating α Unit := do
  if (← settings).traceOperations then say ("end op bp " ++ s.shown)

/-- Runs the way back through a step and keeps the change of its target. -/
def returned (db : Database α) (s : Step) (b : Bindings α) (act : Evaluating α (Bindings α)) :
    Evaluating α (Bindings α) := do
  tellReturn db s b
  let b ← act
  let d ← lift (b.delta s.target)
  let id ← requireId s.info.id
  changeCell id fun c => { c with delta := some d }
  tellReturned s
  return b

/-- Goes back through a plan and keeps the change that it passes on. -/
def traversed (p : Plan) (act : Evaluating α (Matrix α)) : Evaluating α (Matrix α) := do
  tellPlan "Backprop" p
  let m ← act
  let id ← requireId p.id?
  changeCell id fun c => { c with delta := some m }
  tellPlan "Backprop completed" p
  return m

/-- The sum of the changes of addends. Those that do not fit are printed. -/
def sumOfChanges (p : Plan) : List (Matrix α) → Evaluating α (Matrix α)
  | [] => fail .outOfRange
  | m :: ms => ms.zipIdx.foldlM (fun (sum : Matrix α) (m, i) =>
      match sum.add m with
      | .ok sum => pure sum
      | .error e => do
        say ("accum " ++ storageText sum)
        say ("addends[" ++ natural (i + 1) ++ "] " ++ storageText m)
        say ("\n".intercalate (← planLines p))
        fail e) m

end Run

mutual

/-- Passes a change back to the input, and adds up changes of parameters. -/
def Plan.backprop (db : Database α) : Plan → Matrix α → Evaluating α (Matrix α)
  | .null i m, _ => traversed (.null i m) do
    match ((← state).cell (← requireId i.id)).output with
    | some m => return m
    | none => fail .missingPart
  | .log i p, delta => traversed (.log i p) do
    let scratch ← state
    match p.id?.bind fun id => (scratch.cell id).output with
    | none => fail .missingPart
    | some inner =>
      let slope ← lift (inner.mapM fun x => do div? 1 (← Scalar.add? x 1))
      let _ ← lift (slope.hadamard delta)
      fail .noMessages
  | .softmax i p, _ => traversed (.softmax i p) do fail .illTyped
  | .sum i ps, delta => traversed (.sum i ps) do
    sumOfChanges (.sum i ps) (← Plan.backpropAll db ps delta)
  | .sequence i xs y ss r, delta => traversed (.sequence i xs y ss r) do
    let id ← requireId i.id
    match ((← state).cell id).bindings with
    | none => fail .missingPart
    | some b =>
      let b ← Step.backpropAll db ss (b.setDelta y delta)
      changeCell id fun c => { c with bindings := some b }
      match xs with
      | [x] => lift (b.delta x)
      | _ => refuse .severalInputs

def Plan.backpropAll (db : Database α) : List Plan → Matrix α → Evaluating α (List (Matrix α))
  | [], _ => return []
  | p :: ps, delta => do
    let m ← Plan.backprop db p delta
    return m :: (← Plan.backpropAll db ps delta)

/-- Passes the change of a step's target back to its operands. -/
def Step.backprop (db : Database α) : Step → Bindings α → Evaluating α (Bindings α)
  | .act i a, b => returned db (.act i a) b do
    reportBack i.target b a
    let b ← lift (a.back (← settings) db i.target b)
    match ← lift (a.gradient db i.target b) with
    | none => pure ()
    | some (p, m) =>
      let s ← state
      setState { s with gradients := ← lift (Scratch.accumulate s.gradients p m) }
    return b
  | .call i x m d p, b => returned db (.call i x m d p) b do
    let delta ← lift (b.delta i.target)
    return b.setDelta x (← Plan.backprop db p delta)

def Step.backpropAll (db : Database α) : List Step → Bindings α → Evaluating α (Bindings α)
  | [], b => return b
  | s :: ss, b => do Step.backprop db s (← Step.backpropAll db ss b)

end

end BeliefLogic
