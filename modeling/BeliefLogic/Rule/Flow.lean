import BeliefLogic.Bins
import BeliefLogic.Dictionary
import BeliefLogic.Mode

/-!
# How values flow through a rule

The first goal in which a new variable stands computes it, and all later goals use it. Goals are put
into an order in which each can start, and numbered with the head as 0.
-/

namespace BeliefLogic

open Text

/-- The built-in relation that assigns a constant. -/
def assignment : String := "assign"

/-- Where the value of a variable comes from and where it goes. -/
structure VariableFlow where
  /-- The goal that computes the variable; the head gives its inputs. -/
  source : Option Nat := none
  uses : List Nat := []
  connected : Bool := false
  type : Option String := none
  deriving DecidableEq, Repr, Inhabited

/-- The goals that use a variable as they are asked and listed. -/
def VariableFlow.users (f : VariableFlow) : List Nat := Bins.listed f.uses

/-- What a goal uses and computes. -/
structure GoalFlow where
  inputs : List String := []
  outputs : List String := []
  defined : Bool := false
  deriving DecidableEq, Repr, Inhabited

/-- The flow through all goals and variables. -/
structure Flow where
  variableFlows : Dictionary String VariableFlow := {}
  goals : List GoalFlow := []
  deriving DecidableEq, Repr, Inhabited

def single (names : List String) : Except Error String :=
  match names with
  | [x] => .ok x
  | _ => .error (.refused (.notSingle (quotedSet names)))

def addMember {β : Type} [DecidableEq β] (x : β) (xs : List β) : List β :=
  if x ∈ xs then xs else xs ++ [x]

namespace Goal

def variableNames (g : Goal) : List String := g.args.filter isVariableName

def isAssignment (g : Goal) : Bool := g.functor == assignment && 2 ≤ g.arity && g.arity ≤ 3

/-- Whether a goal can start: it has a known variable, or needs none. -/
def isReady (known : List String) (g : Goal) : Bool :=
  g.variableNames.any (known.contains ·) || g.isAssignment || g.arity == 1

/-- Goes once through goals: the ready ones, the rest, and what is known then. -/
def takeReady (known : List String) : List Goal → List Goal × List Goal × List String
  | [] => ([], [], known)
  | g :: gs =>
    if g.isReady known then
      let (taken, left, known) := takeReady (known ++ g.variableNames) gs
      (g :: taken, left, known)
    else
      let (taken, left, known) := takeReady known gs
      (taken, g :: left, known)

theorem length_takeReady_le (known : List String) (gs : List Goal) :
    (takeReady known gs).2.1.length ≤ gs.length := by
  induction gs generalizing known with
  | nil => simp [takeReady]
  | cons g gs ih =>
    by_cases h : g.isReady known
    · simpa [takeReady, h] using Nat.le_succ_of_le (ih _)
    · simpa [takeReady, h] using ih known

/-- The goals in an order in which each can start, if any. -/
def ordered? (known : List String) (gs : List Goal) : Option (List Goal) :=
  match gs with
  | [] => some []
  | g :: gs =>
    let pass := takeReady known (g :: gs)
    if _h : pass.2.1.length < (g :: gs).length then
      (ordered? pass.2.2 pass.2.1).map (pass.1 ++ ·)
    else none
termination_by gs.length
decreasing_by assumption

end Goal

namespace Rule

/-- A rule with goals in an order in which values flow from the inputs. -/
def reorder (r : Rule) (mode : Mode) (d : Dialect) : Except Error Rule :=
  match r.head with
  | none => .error .missingPart
  | some head =>
    if mode.arity < head.arity then .error .outOfRange
    else
      let known := (head.args.zipIdx.filter fun (_, i) => mode.isInput i).map (·.1)
      if r.body.any fun g => g.args.contains "" then .error .emptyName
      else match Goal.ordered? known r.body with
        | some body => .ok { r with body }
        | none => .error (.refused (.unorderable mode.goal (r.text d)))

def checkArities (r : Rule) : Except Error Unit := do
  match r.head with
  | some head => if head.arity ≠ 2 then throw (.refused .headArity)
  | none => throw .missingPart
  for g in r.body do
    let limit := if g.functor = assignment then 3 else 2
    if g.arity < 1 ∨ limit < g.arity then throw (.refused (.goalArity g.text))

end Rule

namespace Flow

def variableFlow (f : Flow) (v : String) : Except Error VariableFlow :=
  match f.variableFlows.get? v with
  | some flow => .ok flow
  | none => .error (.noEntry (quoted v))

def setVariable (f : Flow) (v : String) (flow : VariableFlow) : Flow :=
  { f with variableFlows := f.variableFlows.put v flow }

def goal (f : Flow) (j : Nat) : Except Error GoalFlow :=
  match f.goals[j]? with
  | some flow => .ok flow
  | none => .error .notFound

def setType (f : Flow) (v : String) (type : Option String) : Except Error Flow := do
  return f.setVariable v { ← f.variableFlow v with type }

def addHead (mode : Mode) (head : Goal) : List String → Nat → Flow → GoalFlow →
    Except Error (Flow × GoalFlow)
  | [], _, f, g => .ok (f, g)
  | v :: vs, i, f, g =>
    if f.variableFlows.contains v then .error (.refused .repeatedVariable)
    else if v.isEmpty then .error .emptyName
    else if !isVariableName v then .error (.refused (.constantInHead head.text))
    else if mode.isInput i then
      addHead mode head vs (i + 1) (f.setVariable v { source := some 0 })
        { g with inputs := addMember v g.inputs }
    else
      addHead mode head vs (i + 1) (f.setVariable v { uses := [0] })
        { g with outputs := addMember v g.outputs }

def ofHead (mode : Mode) (head : Goal) : Except Error Flow := do
  let (f, g) ← addHead mode head head.args 0 {} {}
  return { f with goals := [g] }

/-- The flow through the arguments of a head, each variable once. -/
def headPart (mode : Mode) : List String → Nat → Flow → GoalFlow → Flow
  | [], _, f, g => { f with goals := [g] }
  | v :: vs, i, f, g =>
    if f.variableFlows.contains v then { f with goals := [g] }
    else if !isVariableName v then { f.setVariable v {} with goals := [g] }
    else if mode.isInput i then
      headPart mode vs (i + 1) (f.setVariable v { source := some 0 })
        { g with inputs := addMember v g.inputs }
    else
      headPart mode vs (i + 1) (f.setVariable v { uses := [0] })
        { g with outputs := addMember v g.outputs }

/-- Adds an argument of a goal: a known variable is used, others computed. -/
def addArgument (j : Nat) (fg : Flow × GoalFlow) (v : String) : Flow × GoalFlow :=
  let (f, g) := fg
  if isVariableName v then
    let flow := (f.variableFlows.get? v).getD {}
    match flow.source with
    | some _ =>
      (f.setVariable v { flow with uses := addMember j flow.uses },
        { g with inputs := addMember v g.inputs })
    | none =>
      (f.setVariable v { flow with source := some j }, { g with outputs := addMember v g.outputs })
  else (f, g)

def addGoal (f : Flow) (goal : Goal) : Flow :=
  let (f', g) := goal.args.foldl (addArgument f.goals.length) (f, {})
  { f' with goals := f'.goals ++ [g] }

def ofGoals (mode : Mode) (goals : List Goal) : Except Error Flow :=
  match goals with
  | [] => .error .missingPart
  | head :: body => return body.foldl addGoal (← ofHead mode head)

def checkHead (f : Flow) (mode : Mode) (rule : String) : Except Error Unit := do
  let head ← f.goal 0
  if head.outputs.length ≠ 1 then
    throw (.refused (.headOutputs mode.text (quotedSet head.outputs) rule))

/-- The direction of an argument; constants stand for themselves. -/
def direction (g : GoalFlow) (x : String) : Except Error String :=
  if g.inputs.contains x then .ok "i"
  else if g.outputs.contains x then .ok "o"
  else if ["i", "o", "i1", "i2"].contains x then .error (.refused .reservedConstant)
  else .ok x

def modeOf (f : Flow) (goals : List Goal) (j : Nat) : Except Error Mode := do
  let g ← f.goal j
  match goals[j]? with
  | some goal => return ⟨⟨goal.functor, ← goal.args.mapM (direction g)⟩⟩
  | none => throw .outOfRange

end Flow

def truthText (b : Bool) : String := if b then "True" else "False"

def numberOrNone : Option Nat → String
  | some n => natural n
  | none => "None"

namespace VariableFlow

def shown (v : String) (f : VariableFlow) : String :=
  let uses := if f.uses.isEmpty then "set()"
    else "\x7b" ++ ", ".intercalate (f.users.map natural) ++ "\x7d"
  "VarInfo(var=" ++ quoted v ++ ",outputOf=" ++ numberOrNone f.source ++ ",inputTo=" ++ uses ++
    ",connected=" ++ truthText f.connected ++ ")"

end VariableFlow

namespace GoalFlow

def text (g : GoalFlow) : String :=
  "+<" ++ ",".intercalate g.inputs ++ ">\t-<" ++ ",".intercalate g.outputs ++ ">"

def shown (j : Nat) (g : GoalFlow) : String :=
  "GoalInfo(index=" ++ natural j ++ ",inputs=" ++ quotedSet g.inputs ++ ",outputs=" ++
    quotedSet g.outputs ++ ",defined=" ++ truthText g.defined ++ ")"

end GoalFlow

end BeliefLogic
