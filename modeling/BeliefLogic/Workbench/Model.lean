import BeliefLogic.Workbench.Programs

/-!
# Commands on programs and learners

Commands on programs, plans, analyses, modes that are defined outside, learners and gradients.
-/

namespace BeliefLogic.Workbench

open Run

variable {α : Type} [Scalar α]

inductive ProgramCommand where
  | forgetPlans | compile | plan | evaluate | evaluateSymbols | gradient | gradientSymbols
  | rulesFor | params | ruleWeights | save | rulesText | setAllWeights | setFeatureWeights
  | setRuleWeights | setFeatureWeight | featureDomains | ruleNames | setMaxDepth | setNormalization
  | maxDepth | normalization | database | rules | plans | plugins | readFiles | readSaved
  | readLines | readRules
  deriving DecidableEq, Repr

/-- The mode of a query that is going to be planned. A goal is no mode. -/
def plannedMode (id : Nat) (v : Value α) : Work α Mode := do
  match v with
  | .mode m => return m
  | .goal t =>
    match ((← state).modelAt id).program.rulesFor? ⟨t.goal⟩ with
    | some (_ :: _) => missing
    | _ => refuse (.noRules t.goal.text)
  | v => if v.isKey then missing else mismatch

def plannedQuery (id : Nat) (v : Value α) : Work α Plan := do
  let mode ← plannedMode id v
  onModel id (queryPlan mode)

def databaseNumber? (v : Value α) : Work α (Option Nat) := do
  match ← meant? v with
  | some (id, .database _ _) => return some id
  | _ => return none

def pluginsOf (v : Value α) : Work α Plugins := do
  match ← meant? v with
  | some (_, .plugins p) => return p
  | _ => return {}

def plannedAt (id : Nat) (mode : Mode) (depth : Int) : Work α (Value α) := do
  let b : Bench α ← state
  return .plan ⟨id, .table (b.plansOf id) mode depth, []⟩

def inputCount? : Plan → Option Nat
  | .softmax _ (.log _ p) => p.inputTypes.map List.length
  | p => p.inputTypes.map List.length

def planInputs (program : Nat) (p : Plan) (v : Value α) : Work α (List (Matrix α)) := do
  let items ← itemsOf v
  let rows := items.filterMap fun
    | .matrix m => some m
    | _ => none
  if rows.length = items.length then return rows
  if let some n := inputCount? p then
    require (items.length = n) (.unequalBindings n items.length)
  items.mapM fun v => onModel program (planInput p v.operand)

def featuresOf (m : Model α) : Work α Features :=
  match m.program.features with
  | some f => return f
  | none => missing

def ProgramCommand.perform (id : Nat) (args : Args α) : ProgramCommand → Work α (Value α)
  | .forgetPlans => do
    match ← thingAt id with
    | .program p theory _ db => replace id (.program p theory (← keep (.plans {})) db)
    | _ => pure ()
    return .nothing
  | .compile => do
    let depth ← match (← args.valueD 1 (.integer 0)).whole? with
      | some depth => pure depth
      | none => mismatch
    let mode ← plannedMode id (← args.get 0)
    let schema := ((← state).modelAt id).database.map (·.schema)
    let _ ← onModel id (onProgram (compileAt schema mode depth))
    plannedAt id mode depth
  | .plan => do
    let mode ← plannedMode id (← args.get 0)
    let _ ← onModel id (queryPlan mode)
    plannedAt id mode 0
  | .evaluate => do
    let plan ← plannedQuery id (← args.get 0)
    let inputs ← planInputs id plan (← args.get 1)
    onModel id (planAnswers plan inputs)
  | .evaluateSymbols => do
    let db ← onModel id Run.database
    let type ← args.typeName 2 db.schema
    let inputs ← (← itemsOf (← args.get 1)).mapM (entityRow db type)
    let plan ← plannedQuery id (← args.get 0)
    onModel id (planAnswers plan inputs)
  | .gradient => do
    let mode ← plannedMode id (← args.get 0)
    onModel id (queryGradient mode)
  | .gradientSymbols => do
    let db ← onModel id Run.database
    require db.isTypeless .typedSymbols
    for v in ← itemsOf (← args.get 1) do
      let _ ← entityRow db none v
    let mode ← plannedMode id (← args.get 0)
    onModel id (queryGradient mode)
  | .rulesFor => do
    let mode ← declaredMode (← args.get 0)
    match ← thingAt id with
    | .program _ theory _ _ =>
      return match ((← state).groupsAt theory).lookup mode.goal.key with
        | some group => .view (.collection group)
        | none => .nothing
    | _ => return .nothing
  | .params => do
    match ← thingAt id with
    | .program _ _ _ (some db) => return .view (.params db)
    | _ => missing
  | .ruleWeights => return .ofOperand (← onModel id Run.ruleWeights)
  | .save => do
    let directory : String ← args.get 0
    onModel id (Run.saveProgram directory)
  | .rulesText => return .text ((← state).modelAt id).program.theory.serialize
  | .setAllWeights => onModel id Run.setAllWeights
  | .setFeatureWeights => do onModel id (Run.setFeatureWeights (← args.getD 0 (.real 1)))
  | .setRuleWeights => do
    let features := ((← state).modelAt id).program.features
    if features.isNone then args.atMost 2
    if features.all (·.ruleNames.isEmpty) then
      onModel id (Run.setRuleWeights none (.real 1) none)
    else
      let relation ← match ← args.valueD 2 .nothing with
        | .nothing => pure none
        | .text functor => pure (some functor)
        | v =>
          let _ ← onModel id Run.database
          let dialect := (← settings).dialect
          if v.isKey then refuse (.noRuleRelation (← inserted (·.printed dialect) v))
          else mismatch
      let weights : Option (Operand α) ← if relation.isSome then pure none else args.getD 0 none
      onModel id (Run.setRuleWeights weights (← args.getD 1 (.real 1)) relation)
    return .nothing
  | .setFeatureWeight => do
    let _ ← featuresOf ((← state).modelAt id)
    let m ← args.mark 0
    let v ← args.value 2
    onModel id do
      Run.onDatabase (Run.update (·.mark m))
      if let some p := m.relation? then putParam p v.operand
    return .nothing
  | .featureDomains => do
    let _ ← featuresOf ((← state).modelAt id)
    return .view (.domains id)
  | .ruleNames => do
    let _ ← featuresOf ((← state).modelAt id)
    return .view (.ruleNames id)
  | .setMaxDepth => do
    let v ← args.value 0
    onModel id (onProgram (Run.update fun p => { p with maxDepth := .ofDatum v.datum }))
    note id depthNote v
  | .setNormalization => do
    let v ← args.value 0
    onModel id (onProgram (Run.update fun p => { p with normalization := .ofDatum v.datum }))
    note id normalizationNote v
  | .maxDepth => return (← noted? id depthNote).getD .nothing
  | .normalization => return (← noted? id normalizationNote).getD .nothing
  | .database => do
    match ← thingAt id with
    | .program _ _ _ (some db) => return .thing db
    | _ => return .nothing
  | .rules => do
    match ← thingAt id with
    | .program _ theory _ _ => return .thing theory
    | _ => return .nothing
  | .plans => return .view (.plans id ((← state).plansOf id))
  | .plugins => do
    let bench : Bench α ← state
    made (.plugins (bench.modelAt id).program.plugins)
  | .readFiles => do
    let theory ← theoryIn (← args.get 0)
    let features := ((← state).modelAt id).program.features.isSome
    return .thing (← keepProgram features theory (← databaseNumber? (← args.get 1))
      (← pluginsOf (← args.getD 2 .nothing)) none)
  | .readSaved => do
    let (db, t) ← Run.loadProgram (← args.get 0)
    let db ← keepDatabase db
    return .thing (← keepProgram false (← keepTheory t) (some db) {} none)
  | .readLines => do
    let source ← args.value 0
    let lines : List String ← match source with
      | .text s => pure (s.toList.map fun c => String.ofList [c])
      | v => (← itemsOf v).mapM ofValue
    let label := source.printed (← settings).dialect
    return .thing (← keepTheory
      (← Run.readRules .operator ⟨label, lines⟩ { dialect := .operator }))
  | .readRules => do return .thing (← theoryIn (← args.get 0))
where
  theoryIn (paths : Value α) : Work α Nat := do
    keepTheory (← readRuleFiles (← lift paths.sentence))

inductive PlanCommand where
  | shown | summary | copy | number | lines | back | inner | steps | comment | parts | evaluate
  | traverse | addends | outputType | inputTypes | inputs | output | rule | rootNumber | mode
  | checkParts
  deriving DecidableEq, Repr

/-- What goes wrong when something else is used as a pad. -/
def padFailure : Value α → Error
  | .dictionary _ => .notFound
  | .list _ | .tuple _ | .text _ => .outOfRange
  | _ => .illTyped

def unkeptFailure (p : Plan) (pad : Value α) : Error :=
  if p.isNumbered then padFailure pad else .missingPart

/-- What goes wrong on a way back without a place to keep things. -/
def unkeptReturn (pad : Value α) : Plan → Error
  | .softmax _ _ => .illTyped
  | .log _ _ => .missingPart
  | .sum _ (.softmax _ _ :: _) => .illTyped
  | p => unkeptFailure p pad

def PlanCommand.perform (place : PlanPlace) (p : Plan) (args : Args α) :
    PlanCommand → Work α (Value α)
  | .shown => return .text (← lift p.shown)
  | .summary => return .text p.summary
  | .copy => do
    let b : Bench α ← state
    let plans := b.plansOf place.program
    let copy ← lift (p.copy fun m d => (b.plansAt plans).get? (m, d))
    return .plan (← keepPlan place.program plans copy)
  | .number => do
    if p.isNumbered then throw .alreadyNumbered
    let start : Nat ← args.getD 0 1
    let b : Bench α ← state
    let plans := b.calledPlans place
    let ((q, next), table) := (Plan.number false p start).run (b.plansAt plans)
    setState ((b.putThing plans (.plans table)).changePlan place fun _ => q)
    return .ofNat next
  | .lines => do return .ofTexts (← planLinesFrom p (← args.getD 0 0))
  | .back => do
    match p, args with
    | .softmax _ _, [_, _] => refuse .softmaxGradient
    | .softmax _ _, _ => mismatch
    | _, [_, _, some pad] => throw (unkeptReturn pad p)
    | _, _ => mismatch
  | .inner => do
    match p with
    | .softmax _ _ | .log _ _ => return .plan (place.below 0)
    | _ => missing
  | .steps => do
    match p with
    | .sequence .. => return .view (.parts place)
    | _ => missing
  | .comment => return .text (p.comment (← settings).dialect)
  | .parts =>
    return match p with
      | .null _ _ => .list []
      | .log _ _ | .softmax _ _ => .list [.plan (place.below 0)]
      | .sum _ _ | .sequence .. => .view (.parts place)
  | .evaluate => do throw (unkeptFailure p (← args.value 2))
  | .traverse => do
    match p with
    | .softmax _ _ => mismatch
    | p => throw (unkeptReturn (← args.value 2) p)
  | .addends => do
    match p with
    | .sum _ _ => return .view (.parts place)
    | _ => missing
  | .outputType => return .ofName p.outputType
  | .inputTypes => return (p.inputTypes.map fun ts => .list (ts.map .ofName)).getD .nothing
  | .inputs => do
    match p with
    | .sequence _ xs _ _ _ => return .ofTexts xs
    | _ => missing
  | .output => do
    match p with
    | .sequence _ _ y _ _ => return .text y
    | _ => missing
  | .rule => do
    match p with
    | .sequence _ _ _ _ r => return .ofRule r
    | _ => missing
  | .rootNumber => return .ofNat (← requireId p.id?)
  | .mode => do
    match p with
    | .null _ m => return .mode m
    | _ => missing
  | .checkParts => return .nothing

inductive StepCommand where
  | shown | value | compute | back | copy | lines | summary | comment | parts | evaluate | traverse
  | target | type | sender | receiver | stepNumber | source | sources | other | row | weight
  | matrixMode | isTransposed | mode | constant | bodyMode | depth | body | program
  deriving DecidableEq, Repr

/-- The bindings that a value stands for, with its number and database. -/
def bindingsOf? (v : Value α) :
    Work α (Option (Nat × Dictionary String (Value α × Value α) × Nat)) := do
  match ← meant? v with
  | some (id, .bindings values database) => return some (id, values, database)
  | _ => return none

def matrixBindings (values : Dictionary String (Value α × Value α)) : Bindings α where
  values := .ofList (values.values.filterMap fun
    | (.text name, .matrix m) => some (name, m)
    | _ => none)

def computeStep (s : Step) (given pad : Value α) : Work α Unit := do
  match s, ← bindingsOf? given with
  | .act _ (.plugin _ _), _ => refuse .outsideRelation
  | .act i a, some (place, values, db) =>
    let b := matrixBindings values
    reportAction b a
    let m ← lift (a.eval (← settings) (← database db) b i.type)
    let name : Value α := .text i.target
    replace place (.bindings (values.put name.keyForm (name, .matrix m)) db)
  | .call _ x _ _ p, some (_, values, _) =>
    let _ ← lift ((matrixBindings values).value x)
    throw (unkeptFailure p pad)
  | .act _ (.preimage _), none | .act _ (.vector _), none | .act _ (.oneHot _ _), none =>
    missing
  | _, none => throw (padFailure given)

/-- Goes back through a step among variables without changes. -/
def returnStep (s : Step) (given : Value α) : Work α Unit := do
  match s, ← bindingsOf? given with
  | .act _ (.plugin _ _), _ => refuse .outsideRelation
  | .act _ (.preimage _), _ => refuse .preimageGradient
  | .act _ (.oneHot _ _), _ => pure ()
  | .act _ (.vector mode), some (_, _, db) =>
    if (← database db).isParam mode.predicate then throw .notFound
  | _, some _ => throw .notFound
  | _, none => missing

def stepPart (s : Step) (c : StepCommand) : Option (Value α) :=
  match c, s with
  | .source, .act _ (.product x _ _) | .source, .act _ (.hadamard x _)
  | .source, .call _ x _ _ _ => some (.text x)
  | .sources, .act _ (.plugin xs _) => some (.ofTexts xs)
  | .other, .act _ (.hadamard _ y) => some (.text y)
  | .row, .act _ (.weighted _ y) => some (.text y)
  | .weight, .act _ (.weighted x _) => some (.text x)
  | .matrixMode, .act _ (.preimage m) | .matrixMode, .act _ (.vector m)
  | .matrixMode, .act _ (.product _ m _) => some (.mode m)
  | .isTransposed, .act _ (.product _ _ t) => some (.truth t)
  | .mode, .act _ (.oneHot m _) | .mode, .act _ (.plugin _ m) => some (.mode m)
  | .constant, .act _ (.oneHot _ c) => some (.text c)
  | .bodyMode, .call _ _ m _ _ => some (.mode m)
  | .depth, .call _ _ _ d _ => some (.integer d)
  | _, _ => none

def stepBody? (place : PlanPlace) : Step → Work α (Option (Value α))
  | .act _ _ => return none
  | .call _ _ m d p => return some (.plan ((← state).bodyPlace place m d p))

def StepCommand.perform (place : PlanPlace) (s : Step) (args : Args α) (c : StepCommand) :
    Work α (Value α) := do
  match c with
  | .shown => return .text s.shown
  | .value => return .text s.value
  | .compute =>
    computeStep s (← args.get 0) (← args.get 1)
  | .back =>
    returnStep s (← args.get 0)
  | .copy =>
    let b : Bench α ← state
    let plans := b.plansOf place.program
    let copy ← lift (s.copy fun m d => (b.plansAt plans).get? (m, d))
    return .step (← keepPart place.program plans (.step copy))
  | .lines =>
    let usual : Int := match s with
      | .act _ _ => 0
      | .call .. => -1
    return .ofTexts (← stepLines s (← args.getD 0 usual))
  | .summary => return .text s.summary
  | .comment => return .text s.comment
  | .parts =>
    return .list (← stepBody? place s).toList
  | .evaluate =>
    computeStep s (← args.get 0) (← args.get 1)
    let _ ← requireId s.info.id
    throw (padFailure (← args.value 1))
  | .traverse =>
    returnStep s (← args.get 0)
    if (← bindingsOf? (← args.value 0)).isSome then throw .notFound else missing
  | .target => return .text s.target
  | .type => return .ofName s.info.type
  | .sender => return .ofName (s.info.route.map (·.1))
  | .receiver => return .ofName (s.info.route.map (·.2))
  | .stepNumber => return .ofNat (← requireId s.info.id)
  | .body =>
    match ← stepBody? place s with
    | some v => return v
    | none => missing
  | .program =>
    match s with
    | .call .. | .act _ (.plugin _ _) => return .thing place.program
    | _ => missing
  | c =>
    match stepPart s c with
    | some v => return v
    | none => missing

inductive PluginsCommand where
  | isEmpty | has | definition | outputType | relations | definitions
  deriving DecidableEq, Repr

def PluginsCommand.perform (p : Plugins) (args : Args α) : PluginsCommand → Work α (Value α)
  | .isEmpty => return .truth p.isEmpty
  | .has => do
    let mode ← args.valueD 0 .nothing
    let functor : Option String ← args.getD 1 none
    let arity : Option Int ← args.getD 2 none
    match mode, functor, arity with
    | .nothing, some functor, some arity => return .truth (p.relations.contains ⟨functor, arity⟩)
    | .mode m, none, none => return .truth (p.has m)
    | .nothing, _, _ | .mode _, _, _ => refuse .unstated
    | _, none, none => return .truth false
    | _, _, _ => refuse .unstated
  | .definition => do
    let mode ← declaredMode (← args.get 0)
    if p.has mode then return .named "function" else throw .notFound
  | .outputType => do
    let mode ← declaredMode (← args.get 0)
    if p.has mode then return .ofName (p.outputType mode) else throw .notFound
  | .relations =>
    return .dictionary (p.relations.entries.map fun (q, modes) =>
      (.ofPredicate q, .list (modes.map .mode)))
  | .definitions =>
    return .dictionary ((p.relations.entries.flatMap (·.2)).eraseDups.map fun mode =>
      (.mode mode, .named "function"))

inductive AnalysisCommand where
  | analyse | inferredTypes | showSteps | showRule | showVariables | goals | variableFlows | inputs
  | inputTypes | output | outputType | messageTypes | plan | steps | rule | goalList | isAnalysed
  | depth | mode | goalMode | goalInputTypes | program | inferFlow | inferTypes | order | check
  | planCalls | emit
  deriving DecidableEq, Repr

def goalNumber (a : Analysis) (v : Value α) : Work α Nat := do
  let n : Int ← ofValue v
  let _ ← lift (itemAt a.goals n)
  if !a.started then missing
  if n < 0 then throw .notFound
  return n.toNat

def AnalysisCommand.perform (id program : Nat) (a : Analysis) (args : Args α) :
    AnalysisCommand → Work α (Value α)
  | .analyse => analyse
  | .inferredTypes => do
    let m := (← state).modelAt program
    let types ← onAnalysis id program (Run.inferredTypes (m.database.map (·.schema)))
    return .dictionary (types.entries.map fun (v, t) => (.text v, .ofName t))
  | .showSteps => onAnalysis id program Run.showSteps
  | .showRule => onAnalysis id program Run.showRule
  | .showVariables => onAnalysis id program Run.showVariables
  | .goals => do
    if !a.started then missing
    return .dictionary (a.flow.goals.zipIdx.map fun (g, j) =>
      (.ofNat j, .goalFlow j g (if j = 0 then some a.mode else none)))
  | .variableFlows => do
    if !a.started then missing
    return .dictionary (a.flow.variableFlows.entries.map fun (v, f) =>
      (.text v, .variableFlow v f))
  | .inputs => return (a.result.map fun r => .ofTexts r.2).getD .nothing
  | .inputTypes => do
    match a.result with
    | some _ =>
      return match (← lift a.plan).inputTypes with
        | some types => .list (types.map .ofName)
        | none => .nothing
    | none => return .nothing
  | .output => return (a.result.map fun r => .text r.1).getD .nothing
  | .outputType => do
    match a.result with
    | some _ => return .ofName (← lift a.plan).outputType
    | none => return .nothing
  | .messageTypes =>
    return .dictionary (a.emission.types.entries.map fun (m, t) => (.text m, .ofName t))
  | .plan => do
    if !a.completed then analyse
    match ← thingAt id with
    | .analysis a _ =>
      let plan ← lift a.plan
      return .plan (← keepPlan program ((← state).plansOf program) plan)
    | _ => missing
  | .steps => return .view (.parts ⟨program, .analysis id, []⟩)
  | .rule => return .ofRule a.rule
  | .goalList => return .list (a.goals.map fun g => .goal (.ofGoal g))
  | .isAnalysed => return .truth a.completed
  | .depth => return .integer a.depth
  | .mode => return .mode a.mode
  | .goalMode => do
    return .mode (← lift (a.flow.modeOf a.goals (← goalNumber a (← args.get 0))))
  | .goalInputTypes => do
    return .list ((← lift (a.inputTypes (← goalNumber a (← args.get 0)))).map .ofName)
  | .program => return .thing program
  | .inferFlow => onAnalysis id program Run.inferFlow
  | .inferTypes => do
    if !a.started && 1 < a.goals.length then missing
    let m := (← state).modelAt program
    onAnalysis id program (Run.inferTypes (m.database.map (·.schema)))
  | .order => do
    match ruleOf? (← args.value 0), ← args.value 1 with
    | some r, .mode m => return .ofRule (← lift (r.reorder m (← settings).dialect))
    | _, _ => missing
  | .check => lift a.rule.checkArities
  | .planCalls => do
    if !a.started && 1 < a.goals.length then missing
    let m := (← state).modelAt program
    onAnalysis id program (Run.planCalls (Run.planAt (m.database.map (·.schema))
      (planningFuel m.program (a.depth + 1))))
  | .emit => do
    if !a.started then missing
    onAnalysis id program emitSteps
where
  analyse : Work α Unit := do
    let m := (← state).modelAt program
    onAnalysis id program (Run.analyse (m.database.map (·.schema))
      (planningFuel m.program a.depth))

inductive LearnerCommand where
  | accuracy | crossEntropy | lossGradients | accuracyOf | crossEntropyOf | predictions | meanUpdate
  | predict | train | applyUpdate | epochs | setEpochs | rate | setRate | batchSize | setBatchSize
  | program | regularizer | tracer | workers | task | exampleCount | handOver
  deriving DecidableEq, Repr

def examplesOf (v : Value α) : Work α (Nat × Examples α) := do
  match ← meant? v with
  | some (id, .examples e) => return (id, e)
  | _ => missing

def programOf (v : Value α) : Work α Nat := do
  match ← meant? v with
  | some (id, .program ..) => return id
  | _ => missing

def spelledNumber : Value α → Work α α
  | .text s =>
    match Text.readLiteral? s with
    | some l => pure (Scalar.ofLiteral l)
    | none => throw .malformed
  | v => numberOf v

def momentOf (v : Value α) : Work α (Moment α) := do
  match v with
  | .dictionary entries =>
    let given (name : String) : Option (Value α) :=
      (entries.find? fun e => e.1.isSameKey (.text name)).map (·.2)
    let dialect := (← settings).dialect
    return {
      epoch := (given "i").map (·.datum)
      batch := (given "k").map (·.datum)
      start := (given "startTime").map (·.datum)
      mode := (given "mode").map (·.printed dialect) }
  | _ => mismatch

def checkPad (v : Value α) : Work α Unit := if v.isTrue then throw (padFailure v) else pure ()

def ofAmount : Amount α → Value α
  | .whole n => .integer n
  | .real x => .number x
  | .written s => .text s
  | .other d => .ofDatum d

def accuracyAnswer (args : Args α) : Work α (Value α) := do
  let p ← checkedMatrix (← args.get 1)
  let y ← if p.height = 0 then pure p else storedMatrix (← args.get 0)
  return .number (← lift (y.accuracy p))

/-- The cross entropy of predictions, if asked for each example. -/
def crossEntropyAnswer (args : Args α) : Work α (Value α) := do
  let p ← checkedMatrix (← args.get 1)
  let y ← storedMatrix (← args.get 0)
  if ← args.getD 2 false then return .number (← lift (y.meanCrossEntropy p))
  else return .number (← lift (y.crossEntropy p))

def exampleAccuracyAnswer (args : Args α) : Work α (Value α) := do
  let (_, gold) ← examplesOf (← args.get 0)
  let (_, predicted) ← examplesOf (← args.get 1)
  return match ← lift (Run.accuracyOf gold predicted) with
    | some x => .number x
    | none => .integer 0

def exampleCrossEntropyAnswer (args : Args α) : Work α (Value α) := do
  let (_, gold) ← examplesOf (← args.get 0)
  let (_, predicted) ← examplesOf (← args.get 1)
  return .number (← lift (Run.crossEntropyOf gold predicted (← args.getD 2 true)))

/-- The one argument of a command with three parameters of another before. -/
def loneArgument : Args α → Work α (Value α)
  | [some v] | [none, none, none, some v] => pure v
  | _ => mismatch

def meanChange (args : Args α) : Work α (Matrix α) := do
  let s ← settings
  let delta ← lift ((← checkedMatrix (← args.get 2)).confined s.leastGradient s.greatestGradient)
  let n ← args.value 3
  let total ← args.valueD 4 (.integer 0)
  let quotient (x y : α) : Work α α := if Scalar.isZero y then throw .divisionByZero else return x / y
  let isTotal := total.whole? != some 0
  if (← args.value 1).whole? = some 1 then
    let share ← if isTotal then do quotient (← spelledNumber n) (← numberOf total) else pure 1
    lift (do (← delta.mean).scale share)
  else
    let share ← quotient 1 (← numberOf (if isTotal then total else n))
    lift (delta.scale share)

def moveParam (program : Nat) (key change : Value α) (rate : Amount α) : Work α Unit := do
  let (functor, arity) ← lift key.pair
  let db ← onModel program Run.database
  let p ← Args.paramName [some functor, some arity] 0 db
  let x ← lift (db.paramOperand p)
  onModel program (do Run.setParam p (← lift (Run.moved x change.operand rate)))

def LearnerCommand.perform (id program regularizer : Nat) (l : Learner α) (args : Args α) :
    LearnerCommand → Work α (Value α)
  | .accuracy => accuracyAnswer args
  | .crossEntropy => crossEntropyAnswer args
  | .lossGradients => do
    let mode ← plannedMode program (← args.get 0)
    let plan ← onModel program (queryPlan mode)
    require (plan matches .softmax ..) .notSoftmax
    checkPad (← args.getD 4 .nothing)
    let x ← planInputs program plan (.list [← args.get 1])
    let y : Operand α ← args.get 2
    let moment ← momentOf (← args.getD 3 (.dictionary []))
    let g ← onModel program (Run.lossGradients l mode (x.headD default) y moment)
    made (.gradients (.ofGradients g))
  | .accuracyOf => exampleAccuracyAnswer args
  | .crossEntropyOf => exampleCrossEntropyAnswer args
  | .predictions => do
    let (_, e) ← examplesOf (← args.get 0)
    let predicted ← onModel program (learnerPredictions l e)
    if ← args.getD 1 true then made (.examples predicted)
    else match l.method with
      | .parallel | .adaptive =>
        made (.examples { predicted with inputs := {} })
      | _ =>
        let missing := predicted.inputs.mapValues fun _ => Operand.datum .nothing
        made (.examples { predicted with inputs := missing })
  | .meanUpdate => meanChange args
  | .predict => do
    let plan ← plannedQuery program (← args.get 0)
    checkPad (← args.getD 2 .nothing)
    let x ← planInputs program plan (.list [← args.get 1])
    onModel program (planAnswers plan x)
  | .train => do
    match l.method, args with
    | .oneMode, [some mode, some x, some y] =>
      if 0 < (← lift l.epochs.rounds) then
        let x ← checkedMatrix x
        let mode ← plannedMode program mode
        onModel program (Run.trainMode l mode x (← ofValue y))
    | .oneMode, _ => mismatch
    | _, _ =>
      let (examples, _) ← examplesOf (← loneArgument args)
      onTraining program examples (Run.train l)
    return .nothing
  | .applyUpdate => do
    let (grads, _) ← gradientsOf (← args.get 0)
    fitChanges grads
    for (key, v) in ((← state).gradientsAt grads).sums do
      moveParam program key v (← args.get 1)
    return .nothing
  | .epochs => return ofAmount l.epochs
  | .setEpochs => do change { l with epochs := ← args.get 0 }
  | .rate => return ofAmount l.rate
  | .setRate => do change { l with rate := ← args.get 0 }
  | .batchSize => hasBatches (return ofAmount l.batchSize)
  | .setBatchSize => do change { l with batchSize := ← args.get 0 }
  | .program => return .thing program
  | .regularizer => return .thing regularizer
  | .tracer => return .named "function"
  | .workers => hasWorkers (return ofAmount l.workers)
  | .task => hasWorkers do
    let named : List (Value α × Value α) := (["i", "k", "startTime"].map .text).zip
      (← [1, 2, 3].mapM args.get)
    let batch ← batchOf (← args.get 0)
    return .tuple (batch ++ [.dictionary (named ++ [(.text "mode", batch.headD .nothing)])])
  | .exampleCount => hasWorkers do
    let counts ← (← itemsOf (← args.get 0)).mapM fun b => do
      return (← checkedMatrix ((← batchOf b).getD 1 .nothing)).height
    return .ofNat (tally counts)
  | .handOver => hasWorkers do
    let db ← onModel program Run.database
    for mark in db.params do
      let _ ← lift (db.paramOperand (← lift mark.relation))
    return .nothing
where
  batchOf (v : Value α) : Work α (List (Value α)) := do
    let items ← itemsOf v
    if items.length = 3 then return items else throw .malformed
  hasWorkers (act : Work α (Value α)) : Work α (Value α) :=
    match l.method with
    | .parallel | .adaptive => act
    | _ => missing
  change (l : Learner α) : Work α (Value α) := do
    replace id (.learner l program regularizer)
  hasBatches (act : Work α (Value α)) : Work α (Value α) :=
    match l.method with
    | .oneMode | .batch => missing
    | _ => act

inductive RegularizerCommand where
  | cost | shrink | share | setShare
  deriving DecidableEq, Repr

def RegularizerCommand.perform (id : Nat) (r : Regularizer α) (args : Args α) :
    RegularizerCommand → Work α (Value α)
  | .cost => do
    match r with
    | .none => return .number 0
    | .undefined => refuse .notDefined
    | _ =>
      let program ← programOf (← args.get 0)
      return .ofDatum (← onModel program (regularizationCost r))
  | .shrink => do
    match r with
    | .none => return .nothing
    | .undefined => refuse .notDefined
    | _ =>
      let program ← programOf (← args.get 0)
      onModel program (regularize r)
  | .share => do
    match r with
    | .shrink s => return .ofDatum s
    | _ => missing
  | .setShare => do replace id (.regularizer (.shrink (← args.get 0)))

inductive GradientsCommand where
  | params | fit | gradient | items | put | accumulate | map | add | figures | table | isFitted
  deriving DecidableEq, Repr

def GradientsCommand.perform (id : Nat) (g : Changes α) (args : Args α) :
    GradientsCommand → Work α (Value α)
  | .params => return .list (g.sums.map (·.1))
  | .fit => fitChanges id
  | .gradient => do
    match ← entryOf? g.sums (← args.get 0) with
    | some v => return v
    | none => throw .notFound
  | .items => return .list (g.sums.map fun (key, v) => .tuple [key, v])
  | .put => do
    let key ← args.value 0
    if !key.isKey then mismatch
    replace id (.gradients (g.put key (← args.get 1)))
  | .accumulate => do replace id (.gradients (← g.accumulate (← args.get 0) (← args.get 1)))
  | .map => do
    if g.sums.isEmpty then made (.gradients {}) else made (.gradients (← g.map (← args.get 0)))
  | .add => do
    let entries ← match ← args.value 0 with
      | .dictionary entries => pure entries
      | other => pure (← gradientsOf other).2.sums
    made (.gradients (← g.add entries))
  | .figures => return .view (.figures id)
  | .table => return .view (.sums id)
  | .isFitted => return .truth g.fitted

end BeliefLogic.Workbench
