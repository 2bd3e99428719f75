import BeliefLogic.Database.Basic

/-!
# Plans

A plan is a tree: sums over rules, normalizations, and sequences of steps at the leaves. The results
of a node are kept under its number. A plan that occurs again is copied, so numbers are unique.
-/

namespace BeliefLogic

/-- The number, types and notes of a plan. -/
structure PlanInfo where
  id : Option Nat := none
  inputTypes : Option (List (Option String)) := none
  outputType : Option String := none
  copied : Bool := false
  deriving DecidableEq, Repr, Inhabited

def PlanInfo.numbered (i : PlanInfo) (copying : Bool) (n : Nat) : PlanInfo :=
  { i with id := some n, copied := copying || i.copied }

/-- The target, number and type of a step. -/
structure StepInfo where
  id : Option Nat := none
  target : String
  type : Option String := none
  route : Option (String × String) := none
  deriving DecidableEq, Repr, Inhabited

/-- What a step computes. -/
inductive Action where
  /-- The total weight of the outputs of a relation for each input. -/
  | preimage (mode : Mode)
  | vector (mode : Mode)
  /-- The row of a constant, given as second argument of an assignment. -/
  | oneHot (mode : Mode) (constant : String)
  /-- The product with the matrix of a relation or its transpose. -/
  | product (source : String) (mode : Mode) (transpose : Bool)
  | plugin (sources : List String) (mode : Mode)
  | hadamard (left right : String)
  | weighted (weight row : String)
  deriving Repr, Inhabited

mutual

/-- How answers are computed. -/
inductive Plan where
  | null (info : PlanInfo) (mode : Mode)
  | log (info : PlanInfo) (inner : Plan)
  | softmax (info : PlanInfo) (inner : Plan)
  | sum (info : PlanInfo) (addends : List Plan)
  | sequence (info : PlanInfo) (inputs : List String) (output : String) (steps : List Step)
      (rule : Rule)

/-- A step of a plan binds one variable. -/
inductive Step where
  | act (info : StepInfo) (action : Action)
  /-- Binds a variable to the result of a plan for another relation. -/
  | call (info : StepInfo) (source : String) (mode : Mode) (depth : Int) (body : Plan)

end

instance : Inhabited Plan := ⟨.null {} default⟩

instance : Inhabited Step := ⟨.act default default⟩

namespace Plan

def info : Plan → PlanInfo
  | .null i _ | .log i _ | .softmax i _ | .sum i _ | .sequence i _ _ _ _ => i

def setInfo (i : PlanInfo) : Plan → Plan
  | .null _ m => .null i m
  | .log _ p => .log i p
  | .softmax _ p => .softmax i p
  | .sum _ ps => .sum i ps
  | .sequence _ xs y ss r => .sequence i xs y ss r

def id? (p : Plan) : Option Nat := p.info.id

def isNumbered (p : Plan) : Bool := p.id?.isSome

def outputType (p : Plan) : Option String := p.info.outputType

def inputTypes (p : Plan) : Option (List (Option String)) := p.info.inputTypes

def firstType (a b : Option String) : Option String :=
  match a with
  | some t => if t.isEmpty then b else a
  | none => b

def softmaxOf (p : Plan) : Plan :=
  .softmax { inputTypes := p.inputTypes, outputType := p.outputType } p

def logOf (p : Plan) : Plan := .log { outputType := p.outputType } p

/-- The sum of plans, whose addends take unknown types from the others. -/
def sumOf (ps : List Plan) : Plan :=
  let type := ps.foldl (fun t p => firstType t p.outputType) none
  let inputTypes := ps.foldl (fun t p => p.inputTypes.or t) none
  .sum { inputTypes, outputType := type } (ps.map fun p =>
    if p.outputType.isNone then p.setInfo { p.info with outputType := type } else p)

end Plan

namespace Step

def info : Step → StepInfo
  | .act i _ | .call i _ _ _ _ => i

def setInfo (i : StepInfo) : Step → Step
  | .act _ a => .act i a
  | .call _ x m d p => .call i x m d p

def target (s : Step) : String := s.info.target

def withType (s : Step) (type : Option String) : Step := s.setInfo { s.info with type }

end Step

/-- The type that a copy knows: of an assignment of three arguments, its constant. -/
def Action.copyType : Action → Option String
  | .oneHot mode constant => if mode.arity = 3 then some constant else none
  | _ => none

/-- A copy without number and route. The body of a call is looked up. -/
def Step.copy (body : Mode → Int → Option Plan) : Step → Except Error Step
  | .act i a => .ok (.act { target := i.target, type := a.copyType } a)
  | .call i x m d _ =>
    match body m d with
    | some p => .ok (.call { target := i.target, type := p.outputType } x m d p)
    | none => .error .notFound

mutual

/-- A copy of a plan without numbers. The bodies of calls are looked up. -/
def Plan.copy (body : Mode → Int → Option Plan) : Plan → Except Error Plan
  | .null _ m => .ok (.null {} m)
  | .log _ p => return (← Plan.copy body p).logOf
  | .softmax _ p => return (← Plan.copy body p).softmaxOf
  | .sum _ ps => return .sumOf (← Plan.copyAll body ps)
  | .sequence i xs y ss r =>
    return .sequence { i with id := none, copied := false } xs y (← ss.mapM (Step.copy body)) r

def Plan.copyAll (body : Mode → Int → Option Plan) : List Plan → Except Error (List Plan)
  | [] => .ok []
  | p :: ps => return (← Plan.copy body p) :: (← Plan.copyAll body ps)

end

mutual

/-- How many evaluations are under way at once when a plan is evaluated. -/
def Plan.nesting : Plan → Nat
  | .null _ _ => 2
  | .log _ p => Plan.nesting p + 2
  | .softmax _ p => Plan.nesting p + 2
  | .sum _ ps => Plan.nestingOfAll ps + 2
  | .sequence _ _ _ ss _ => Step.nestingOfAll ss + 2

/-- How many evaluations are under way at once when plans are evaluated. -/
def Plan.nestingOfAll : List Plan → Nat
  | [] => 0
  | p :: ps => max (Plan.nesting p) (Plan.nestingOfAll ps)

/-- How many evaluations are under way at once when a step is taken. -/
def Step.nesting : Step → Nat
  | .act _ _ => 2
  | .call _ _ _ _ p => Plan.nesting p + 2

/-- How many evaluations are under way at once when steps are taken. -/
def Step.nestingOfAll : List Step → Nat
  | [] => 0
  | s :: ss => max (Step.nesting s) (Step.nestingOfAll ss)

end

abbrev PlanTable := Dictionary (Mode × Int) Plan

mutual

/-- Numbers the nodes of a plan from a number on, and returns the next free number. A call takes the
plan of the table, or a copy if that has numbers. -/
def Plan.number (copying : Bool) : Plan → Nat → StateM PlanTable (Plan × Nat)
  | .null i m, n => return (.null ((if copying then {} else i).numbered copying n) m, n + 1)
  | .log i p, n => do
    let (p, next) ← Plan.number copying p (n + 1)
    return (.log (i.numbered copying n) p, next)
  | .softmax i p, n => do
    let (p, next) ← Plan.number copying p (n + 1)
    return (.softmax (i.numbered copying n) p, next)
  | .sum i ps, n => do
    let (ps, next) ← Plan.numberAll copying ps (n + 1)
    return (.sum (i.numbered copying n) ps, next)
  | .sequence i xs y ss r, n => do
    let (ss, next) ← Step.numberAll copying ss (n + 1)
    return (.sequence (i.numbered copying n) xs y ss r, next)

def Plan.numberAll (copying : Bool) : List Plan → Nat → StateM PlanTable (List Plan × Nat)
  | [], n => return ([], n)
  | p :: ps, n => do
    let (p, n) ← Plan.number copying p n
    let (ps, n) ← Plan.numberAll copying ps n
    return (p :: ps, n)

def Step.number (copying : Bool) : Step → Nat → StateM PlanTable (Step × Nat)
  | .act i a, n =>
    return (.act (if copying then { id := some n, target := i.target, type := a.copyType }
      else { i with id := some n }) a, n + 1)
  | .call i x m d p, n => do
    let known := ((← get).get? (m, d)).elim false Plan.isNumbered
    let (p, next) ← Plan.number (copying || known) p (n + 1)
    if !copying && !known then modify fun t => t.put (m, d) p
    return (.call (if copying then { id := some n, target := i.target, type := p.outputType }
      else { i with id := some n }) x m d p, next)

def Step.numberAll (copying : Bool) : List Step → Nat → StateM PlanTable (List Step × Nat)
  | [], n => return ([], n)
  | s :: ss, n => do
    let (s, n) ← Step.number copying s n
    let (ss, n) ← Step.numberAll copying ss n
    return (s :: ss, n)

end

end BeliefLogic
