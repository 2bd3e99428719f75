import BeliefLogic.Program.Basic

/-!
# Planning queries

A rule is planned from its flow, the plans it calls, its types and its messages. Plans are kept, so
each is made once; calls that go too deep have no answers.
-/

namespace BeliefLogic

open Text

/-- What is known of a rule so far. -/
structure Analysis where
  mode : Mode
  depth : Int
  rule : Rule
  emission : Emission
  started : Bool := false
  /-- The name of the result and the inputs, once all steps are emitted. -/
  result : Option (String × List String) := none
  /-- Whether the analysis came to its end, with steps or without. -/
  completed : Bool := false
  deriving Inhabited

def Rule.goals (r : Rule) : List Goal :=
  match r.head with
  | some head => head :: r.body
  | none => r.body

namespace Analysis

def ofRule (strict : Bool) (d : Dialect) (mode : Mode) (depth : Int) (r : Rule) :
    Except Error Analysis := do
  let r ← r.reorder mode d
  if strict then r.checkArities
  return { mode, depth, rule := r, emission := { goals := r.goals } }

def flow (a : Analysis) : Flow := a.emission.flow

def goals (a : Analysis) : List Goal := a.emission.goals

def setFlow (a : Analysis) (f : Flow) : Analysis :=
  { a with emission := { a.emission with flow := f } }

def inputTypes (a : Analysis) (j : Nat) : Except Error (List (Option String)) := do
  let mode ← a.flow.modeOf a.goals j
  let args := ((a.goals[j]?).map Goal.args).getD []
  (args.zipIdx.filter fun (_, i) => mode.isInput i).mapM fun (v, _) =>
    return (← a.flow.variableFlow v).type

def plan (a : Analysis) : Except Error Plan :=
  match a.result with
  | none => .error .illTyped
  | some (output, inputs) => do
    let types ← inputs.mapM fun v => return (← a.flow.variableFlow v).type
    let type ← match a.emission.types.get? output with
      | some type => pure type
      | none => throw (.noEntry (quoted output))
    return .sequence { inputTypes := some types, outputType := type } inputs output
      a.emission.steps a.rule

/-- Whether a type says more than that something is an entity. -/
def isInformative : Option String → Bool
  | some type => type ≠ thing
  | none => false

end Analysis

namespace Run

variable {α : Type}

/-- Works on the state with a part added, which is returned at the end. -/
def beside {σ τ β : Type} (t : τ) (act : Run α (σ × τ) β) : Run α σ (β × τ) := fun (w, s) =>
  match act (w, (s, t)) with
  | .ok b (w', (s', t')) => .ok (b, t') (w', s')
  | .error e (w', (s', _)) => .error e (w', s')

abbrev Analysing (α : Type) := Run α (Program × Analysis)

def analysis : Analysing α Analysis := return (← state).2

def setAnalysis (a : Analysis) : Analysing α Unit := update fun (p, _) => (p, a)

def setFlow (f : Flow) : Analysing α Unit := update fun (p, a) => (p, a.setFlow f)

/-- Infers the flow. If the head is refused, that before is kept. -/
def inferFlow : Analysing α Unit := do
  let a ← analysis
  match Flow.ofGoals a.mode a.goals with
  | .ok flow =>
    setAnalysis { a.setFlow flow with started := true }
    lift (flow.checkHead a.mode (a.rule.text (← settings).dialect))
  | .error e =>
    let args := ((a.goals.head?).map Goal.args).getD []
    setAnalysis { a.setFlow (Flow.headPart a.mode args 0 {} {}) with started := true }
    fail e

def noteType (v : String) (type : Option String) : Analysing α Unit := do
  setFlow (← lift ((← analysis).flow.setType v type))

def warnOfTypes (v : String) (old new : Option String) : Analysing α Unit := do
  if Analysis.isInformative old && old ≠ new then
    warn ("variable " ++ v ++ " has types " ++ old.getD "None" ++ " and " ++
      new.getD "None" ++ " in rule " ++ (← analysis).rule.text (← settings).dialect)

def noteInformative (v : String) (old new : Option String) : Analysing α Unit := do
  warnOfTypes v old new
  noteType v new

/-- Infers the type of an argument of a relation from the schema. -/
def inferArgument (schema : Option Schema) (goal : Goal) (v : String) (i : Nat) :
    Analysing α Unit := do
  match schema with
  | none => fail (.noPart "NoneType" "schema")
  | some schema =>
    let new ← lift (schema.argType ⟨goal.functor, goal.arity⟩ i)
    let old ← lift ((← analysis).flow.variableFlow v)
    if Analysis.isInformative new then noteInformative v old.type new

/-- Infers the types of a relation's arguments from the schema. -/
def inferRelationTypes (schema : Option Schema) (goal : Goal) : Analysing α Unit :=
  goal.args.zipIdx.forM fun (v, i) => inferArgument schema goal v i

/-- Notes the type of an argument that a mode defined outside computes. -/
def inferOutput (plugins : Plugins) (mode : Mode) (j : Nat) (v : String) (i : Nat) :
    Analysing α Unit := do
  if mode.isOutput i then
    let _ ← lift ((← analysis).inputTypes j)
    noteType v (plugins.outputType mode)

def inferGoal (schema : Option Schema) (goal : Goal) (j : Nat) : Analysing α Unit := do
  let (p, a) ← state
  let mode ← lift (a.flow.modeOf a.goals j)
  if p.plugins.has mode then
    goal.args.zipIdx.forM fun (v, i) => inferOutput p.plugins mode j v i
  else if goal.functor = assignment ∧ goal.arity = 3 then
    noteType (goal.args.getD 0 "") (goal.args[2]?)
  else if goal.functor ≠ assignment ∧ !p.defines mode then
    inferRelationTypes schema goal

/-- Infers the types of variables from plugins, assignments and relations. -/
def inferTypes (schema : Option Schema) : Analysing α Unit := do
  (← analysis).goals.zipIdx.tail.forM fun (goal, j) => inferGoal schema goal j

def messaging (p : Program) (a : Analysis) (d : Dialect) : Messaging where
  rule := a.rule
  depth := a.depth + 1
  dialect := d
  isPlugin := p.plugins.has
  pluginType := p.plugins.outputType
  body := fun mode => p.plan? mode (a.depth + 1)

/-- Keeps an emission, and prints its trace if the settings ask for it. -/
def keepEmission (e : Emission) : Analysing α Unit := do
  if (← settings).traceAnalysis then e.trace.forM say
  update fun (p, a) => (p, { a with emission := { e with trace := [] } })

/-- Emits the steps of a rule, and prints the trace if asked. -/
def emitSteps : Analysing α Unit := do
  let (p, a) ← state
  match (messaging p a (← settings).dialect).emit.run a.emission with
  | .ok output e =>
    keepEmission e
    let head ← lift (e.flow.goal 0)
    update fun (p, a) => (p, { a with result := some (output, head.inputs) })
  | .error err e =>
    keepEmission e
    fail err

def typeSteps : Analysing α Unit :=
  update fun (p, a) => (p, { a with emission := { a.emission with
    steps := a.emission.steps.map fun s => s.withType (a.emission.types.get? s.target).join } })

def noteCallTypes (j : Nat) (plan : Plan) : Analysing α Unit := do
  match plan.inputTypes with
  | none => pure ()
  | some types =>
    let g ← lift ((← analysis).flow.goal j)
    (g.inputs.zip types).forM fun (v, type) => noteType v type
    noteType (← lift (single g.outputs)) plan.outputType

def markDefined (j : Nat) : Analysing α Unit :=
  update fun (p, a) => (p, a.setFlow { a.flow with
    goals := a.flow.goals.modify j fun g => { g with defined := true } })

/-- Plans the relation of a goal one level deeper, if rules define it. -/
def planCall (plan : Mode → Int → Run α Program Plan) (j : Nat) : Analysing α Unit := do
  let (p, a) ← state
  let mode ← lift (a.flow.modeOf a.goals j)
  if p.defines mode then
    markDefined j
    noteCallTypes j (← focus (·.1) (fun p s => (p, s.2)) (plan mode (a.depth + 1)))

/-- Plans the relations that a rule calls, each one level deeper. -/
def planCalls (plan : Mode → Int → Run α Program Plan) : Analysing α Unit := do
  (List.range (← analysis).goals.length).tail.forM (planCall plan)

def emitIfAsked : Analysing α Unit := do
  if (← settings).emitOperations then emitSteps

def keepPlan (mode : Mode) (depth : Int) (plan : Plan) : Run α Program Plan := do
  update fun p => { p with plans := p.plans.put (mode, depth) plan }
  return plan

def planRules (planRule : Rule → Run α Program Plan) (mode : Mode) :
    List Rule → Run α Program Plan
  | [] => refuse (.noRules mode.text)
  | [r] => planRule r
  | rules => return .sumOf (← rules.mapM planRule)

def finishPlan (normalization : Normalization) (mode : Mode) (plan : Plan) :
    Run α Program Plan := do
  let plan ← lift (Program.normalize normalization plan)
  let ((plan, _), plans) := (Plan.number false plan 1).run (← state).plans
  update fun p => { p with plans }
  keepPlan mode 0 plan

mutual

/-- The plan of a mode at a depth, which is made unless it is kept. -/
def planAt (schema : Option Schema) : Nat → Mode → Int → Run α Program Plan
  | 0, _, _ => fail .endless
  | fuel + 1, mode, depth => do
    let p ← state
    match p.plan? mode depth with
    | some plan => return plan
    | none =>
      if ← lift (p.maxDepth.isExceededBy depth) then keepPlan mode depth (.null {} mode)
      else
        let plan ← planRules (planForRule schema fuel mode depth) mode
          ((p.rulesFor? mode).getD [])
        let plan ← keepPlan mode depth plan
        if depth ≠ 0 then return plan else finishPlan p.normalization mode plan

def planForRule (schema : Option Schema) : Nat → Mode → Int → Rule → Run α Program Plan
  | 0, _, _, _ => fail .endless
  | fuel + 1, mode, depth, r => do
    let s ← settings
    let a ← lift (Analysis.ofRule s.strictRules s.dialect mode depth r)
    let (_, a) ← beside a (analyse schema fuel)
    lift a.plan

/-- Analyses a rule: flow, called plans, types, and steps. -/
def analyse (schema : Option Schema) : Nat → Analysing α Unit
  | 0 => fail .endless
  | fuel + 1 => do
    inferFlow
    planCalls (planAt schema fuel)
    inferTypes schema
    emitIfAsked
    typeSteps
    update fun (p, a) => (p, { a with completed := true })

end

/-- Enough fuel for all depths, with at most 246 plans under way at once. -/
def planningFuel (p : Program) (depth : Int) : Nat :=
  match p.maxDepth with
  | .upTo n => min (3 * (n + 2 - depth).toNat + 4) 740
  | .undefined _ => 4

def compileAt (schema : Option Schema) (mode : Mode) (depth : Int) : Run α Program Plan := do
  planAt schema (planningFuel (← state) depth) mode depth

def compile (schema : Option Schema) (mode : Mode) : Run α Program Plan := compileAt schema mode 0

/-- The types of variables that follow without plans of called relations. -/
def inferredTypes (schema : Option Schema) : Analysing α (Dictionary String (Option String)) := do
  inferFlow
  inferTypes schema
  return (← analysis).flow.variableFlows.mapValues (·.type)

def inferredFlow : Analysing α Flow := do
  let a ← analysis
  if a.started then return a.flow else fail .missingPart

def showVariables : Analysing α Unit := do
  say "var\toutOf\tinputTo\toutOf\tinputTo\tfb"
  let flow ← inferredFlow
  let goals := (← analysis).goals
  let goalAt (j : Nat) : Analysing α String :=
    match goals[j]? with
    | some g => pure g.text
    | none => fail .outOfRange
  for (v, f) in flow.variableFlows.entries.mergeSort fun a b => decide (a.1 ≤ b.1) do
    let source ← match f.source with
      | some j => goalAt j
      | none => pure "None"
    let uses ← f.users.mapM goalAt
    say ("\t".intercalate [v, numberOrNone f.source, ",".intercalate (f.users.map natural),
      source, ",".intercalate uses, truthText f.connected])

def showRule : Analysing α Unit := do
  let a ← analysis
  for (goal, j) in a.goals.zipIdx do
    let flow ← lift ((← inferredFlow).goal j)
    let mode ← lift (a.flow.modeOf a.goals j)
    let n := natural j
    say (parenthesized ((if n.length < 2 then " " ++ n else n) ::
      ["\t ", flow.text, "\t", goal.text, mode.text] |>.map quoted))

def showSteps : Analysing α Unit := do
  let a ← analysis
  match a.result with
  | none => fail .illTyped
  | some (output, inputs) =>
    say (parenthesized ["'inputs:'", quoted (",".intercalate inputs)])
    say (parenthesized ["'output:'",
      quoted (",".intercalate (output.toList.map String.singleton))])
    say "compiled to:"
    for s in a.emission.steps do say ("('\\t', " ++ s.shown ++ ")")

end Run

end BeliefLogic
