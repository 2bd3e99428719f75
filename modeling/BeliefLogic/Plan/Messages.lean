import BeliefLogic.Plan.Listing
import BeliefLogic.Rule.Flow

/-!
# Messages between goals and variables

The plan of a rule is belief propagation on the graph of its goals and variables: every message is a
step. Variables that were not asked send to an extra goal, whose sums weigh the result. The number
of edges bounds a search that goes round no cycle.
-/

namespace BeliefLogic

open Text

/-- What messages are emitted for. -/
structure Messaging where
  rule : Rule
  depth : Int
  dialect : Dialect
  isPlugin : Mode → Bool
  pluginType : Mode → Option String
  body : Mode → Option Plan

/-- What was emitted so far. -/
structure Emission where
  goals : List Goal
  flow : Flow := {}
  steps : List Step := []
  types : Dictionary String (Option String) := {}
  trace : List String := []
  deriving Inhabited

abbrev Emit := EStateM Error Emission

namespace Emit

def lift {β : Type} : Except Error β → Emit β
  | .ok b => pure b
  | .error e => throw e

def bars (depth : Nat) : String := String.join (List.replicate depth "| ")

def tell (depth : Nat) (line : String) : Emit Unit :=
  modify fun e => { e with trace := e.trace ++ [bars depth ++ line] }

def goalFlow (j : Nat) : Emit GoalFlow := do lift ((← get).flow.goal j)

def variableFlow (v : String) : Emit VariableFlow := do lift ((← get).flow.variableFlow v)

def modeOf (j : Nat) : Emit Mode := do
  let e ← get
  lift (e.flow.modeOf e.goals j)

def goalText (j : Nat) : Emit String := do
  return (((← get).goals[j]?).map Goal.text).getD ""

def connect (v : String) : Emit Unit := do
  let flow ← variableFlow v
  modify fun e => { e with flow := e.flow.setVariable v { flow with connected := true } }

/-- Names a message for a variable, and notes the variable's type. -/
def name (stem v suffix : String) : Emit String := do
  let message := stem ++ "_" ++ v ++ suffix
  let flow ← variableFlow v
  modify fun e => { e with types := e.types.put message flow.type }
  return message

def typeOf (message : String) : Emit (Option String) := do
  match (← get).types.get? message with
  | some type => return type
  | none => throw (.noEntry (quoted message))

/-- Emits a step that computes the message from one end to another. -/
def step (depth : Nat) (source target : String) (s : Step) : Emit Unit := do
  tell depth ("+" ++ s.shown)
  let s := s.setInfo { s.info with route := some (source, target) }
  modify fun e => { e with steps := e.steps ++ [s] }

def act (depth : Nat) (source target message : String) (a : Action)
    (type : Option String := none) : Emit Unit :=
  step depth source target (.act { target := message, type } a)

def require (condition : Bool) (e : Error) : Emit Unit :=
  if condition then pure () else throw e

end Emit

namespace Messaging

open Emit

/-- Emits the constant that a goal without inputs assigns. -/
def assigned (c : Messaging) (j : Nat) (mode : Mode) (here v message : String) (depth : Nat) :
    Emit String := do
  require (mode.functor == assignment && 2 ≤ mode.arity && mode.isOutput 0)
    (.refused (.sourceless ((c.rule.body[j - 1]?).elim "" Goal.text) (c.rule.text c.dialect)))
  require (mode.isConst 1) (.refused .assignedVariable)
  let a := Action.oneHot mode (mode.args.getD 1 "")
  act depth here v message a a.copyType
  return message

/-- Emits the message to the output of a goal, from that to its input. -/
def carried (c : Messaging) (g : GoalFlow) (mode : Mode) (here v message source : String)
    (depth : Nat) : Emit String := do
  if g.defined then
    match c.body mode with
    | some body =>
      step depth here v
        (.call { target := message, type := body.outputType } source mode c.depth body)
      return message
    | none => throw .notFound
  else
    act depth here v message (.product source mode false)
    return message

def weighed (c : Messaging) (mode : Mode) (here v message : String) (depth : Nat) :
    Emit String := do
  act depth here v message (if c.isPlugin mode then .plugin [] mode else .vector mode)
    (← typeOf message)
  return message

/-- Emits the message to an input, of an output that nothing uses. -/
def summed (g : GoalFlow) (mode : Mode) (here v y message : String) (depth : Nat) :
    Emit String := do
  connect y
  require (!g.defined) (.refused .unusedOutput)
  act depth here v message (.preimage mode) (← typeOf message)
  return message

/-- Emits the message from a goal to an output, asking its other variables. -/
def toOutput (c : Messaging) (ask : String → Emit String) (g : GoalFlow) (j : Nat) (v : String)
    (depth : Nat) : Emit String := do
  let message ← name "f" v (natural j)
  let mode ← modeOf j
  let here ← goalText j
  if g.inputs.isEmpty then c.assigned j mode here v message depth
  else if c.isPlugin mode then
    let sources ← g.inputs.mapM ask
    act depth here v message (.plugin sources mode) (c.pluginType mode)
    return message
  else
    let source ← ask (← lift (single g.inputs))
    c.carried g mode here v message source depth

/-- Emits the message from a goal to an input, asking its other variables. -/
def toInput (c : Messaging) (ask : String → Emit String) (g : GoalFlow) (j : Nat) (v : String)
    (depth : Nat) : Emit String := do
  let message ← name "b" v (natural j)
  let mode ← modeOf j
  let here ← goalText j
  if g.outputs.isEmpty then c.weighed mode here v message depth
  else
    let y ← lift (single g.outputs)
    if (← variableFlow y).uses.isEmpty then summed g mode here v y message depth
    else
      let source ← ask y
      act depth here v message (.product source mode true)
      return message

/-- The name of the product of the messages from goals up to one of them. -/
def partialName (goals : List (Option Nat)) (j : Nat) (v : String) (j' : Option Nat) :
    Emit String :=
  if some j' = goals.getLast? then name "fb" v ""
  else name "p" v (natural j ++ numberOrNone j')

mutual

/-- Emits the message from a goal: forward to an output, backward to an input. -/
def fromGoal (c : Messaging) : Nat → Option Nat → String → Nat → Emit String
  | 0, _, _, _ => throw .endless
  | _ + 1, none, _, _ => throw (.noEntry "None")
  | fuel + 1, some j, v, depth => do
    let g ← goalFlow j
    tell depth ("msg: " ++ natural j ++ "->" ++ v)
    if j = 0 then
      if g.inputs.contains v then return v else throw (.refused (.illegalMessage j v))
    else if g.outputs.contains v then
      c.toOutput (fun x => c.fromVariable fuel x j (depth + 1)) g j v depth
    else if g.inputs.contains v then
      c.toInput (fun y => c.fromVariable fuel y j (depth + 1)) g j v depth
    else
      throw (.refused (.unexpectedMessage j v (quotedSet g.inputs) (quotedSet g.outputs)))

/-- Emits the message from a variable: the product of those from other goals. -/
def fromVariable (c : Messaging) : Nat → String → Nat → Nat → Emit String
  | 0, _, _, _ => throw .endless
  | fuel + 1, v, j, depth => do
    connect v
    let flow ← variableFlow v
    let neighbours := (flow.source :: flow.users.map some).filter (· ≠ some j)
    tell depth ("msg from " ++ v ++ " to " ++ natural j ++ ", vNeighbors=" ++
      bracketed (neighbours.map numberOrNone))
    match neighbours with
    | [] => throw (.refused (.isolated v j))
    | first :: rest =>
      let here ← goalText j
      let start ← c.fromGoal fuel first v (depth + 1)
      rest.foldlM (fun product j' => do
        let next ← partialName rest j v j'
        let factor ← c.fromGoal fuel j' v (depth + 1)
        act depth v here next (.hadamard product factor)
        return next) start

end

def fuelFor (goals : List Goal) : Nat := 2 * tally (goals.map Goal.arity) + 4

/-- The name of the extra goal to which unconnected variables send. -/
def extraGoal : Goal := ⟨"PSEUDO", []⟩

/-- Emits the messages of variables not connected yet, the last goal's first. -/
def unconnected (c : Messaging) (fuel extra : Nat) (goals : List Goal) : Emit (List String) :=
  (goals.reverse.flatMap Goal.variableNames).foldlM (fun found v => do
    if (← variableFlow v).connected then return found
    else return found ++ [← c.fromVariable fuel v extra 1]) []

def weightedName (weights : List String) (y weight : String) : Emit String :=
  if some weight = weights.getLast? then name "w" y "" else name ("p_" ++ weight) y ""

def weigh (weights : List String) (y output : String) : Emit String :=
  weights.foldlM (fun product weight => do
    let next ← weightedName weights y weight
    act 0 weight "PSEUDO" next (.weighted weight product)
    return next) output

def addExtra : Emit Nat := do
  let extra := (← get).goals.length
  modify fun e => { e with goals := e.goals ++ [extraGoal],
                           flow := { e.flow with goals := e.flow.goals ++ [{}] } }
  return extra

/-- Emits all steps of a rule, and returns the name of its result. -/
def emit (c : Messaging) : Emit String := do
  let fuel := fuelFor (← get).goals
  let y ← lift (single (← goalFlow 0).outputs)
  let output ← c.fromVariable fuel y 0 1
  let extra ← addExtra
  let weights ← c.unconnected fuel extra (← get).goals.tail
  weigh weights y output

end Messaging

end BeliefLogic
