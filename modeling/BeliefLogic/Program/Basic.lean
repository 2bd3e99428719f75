import BeliefLogic.Plan.Messages

/-!
# Programs

A theory with modes defined outside, the greatest depth of calls, and the plans made so far.
-/

namespace BeliefLogic

/-- A definition from outside, as written, and its type. -/
structure Plugin where
  written : String
  type : Option String
  deriving DecidableEq, Repr, Inhabited

/-- All that is defined outside. -/
structure Plugins where
  definitions : Dictionary Mode Plugin := {}
  relations : Dictionary Predicate (List Mode) := {}
  deriving Inhabited

namespace Plugins

def define (p : Plugins) (mode : Mode) (d : Plugin) : Plugins where
  definitions := p.definitions.put mode d
  relations := p.relations.change mode.predicate [] (· ++ [mode])

def isEmpty (p : Plugins) : Bool := p.relations.isEmpty

def has (p : Plugins) (mode : Mode) : Bool := p.definitions.contains mode

def outputType (p : Plugins) (mode : Mode) : Option String := (p.definitions.get? mode).bind (·.type)

end Plugins

/-- Names of rules and domains of features. -/
structure Features where
  ruleNames : List String := []
  /-- For each parameter the modes whose inputs its features range over. -/
  domains : Dictionary String (List Mode) := {}
  deriving Inhabited

/-- Rules, bounds, and the plans made so far. -/
structure Program where
  theory : Theory
  plugins : Plugins := {}
  maxDepth : Depth
  normalization : Normalization
  plans : PlanTable := {}
  features : Option Features := none
  deriving Inhabited

namespace Program

def ofTheory {α : Type} (s : Settings α) (t : Theory) (plugins : Plugins) : Program where
  theory := t
  plugins := plugins
  maxDepth := s.maxDepth
  normalization := s.normalization

def forgetPlans (p : Program) : Program := { p with plans := {} }

def rulesFor? (p : Program) (mode : Mode) : Option (List Rule) := p.theory.rulesFor? mode.goal.key

def defines (p : Program) (mode : Mode) : Bool := ((p.rulesFor? mode).getD []) ≠ []

def plan? (p : Program) (mode : Mode) (depth : Int) : Option Plan := p.plans.get? (mode, depth)

def normalize (n : Normalization) (p : Plan) : Except Error Plan :=
  match n with
  | .softmax => .ok p.softmaxOf
  | .logSoftmax => .ok p.logOf.softmaxOf
  | .identity => .ok p
  | .unknown (some shown) => .error (.refused (.badNormalization shown))
  | .unknown none => .error .illTyped

end Program

end BeliefLogic
