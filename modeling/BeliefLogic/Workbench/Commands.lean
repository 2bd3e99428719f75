import BeliefLogic.Workbench.Inspecting
import BeliefLogic.Workbench.Lexicons
import BeliefLogic.Workbench.Vocabulary

/-!
# Commands on things

A command is given by its number among those of its kind, or by a name.
-/

namespace BeliefLogic.Workbench

open Run

variable {α : Type} [Scalar α]

def perform (id command : Nat) (args : Args α) : Work α (Value α) := do
  match ← thingAt id with
  | .symbols t names => (SymbolsCommand.ofNat command).perform id t names args
  | .schema s => (SchemaCommand.ofNat command).perform id s args
  | .theory _ groups =>
    (TheoryCommand.ofNat command).perform id ((← state).theoryAt id) groups args
  | .database _ _ => (DatabaseCommand.ofNat command).perform id (← database id) args
  | .examples e => (ExamplesCommand.ofNat command).perform id e args
  | .plugins p => (PluginsCommand.ofNat command).perform p args
  | .program .. => (ProgramCommand.ofNat command).perform id args
  | .analysis a program => (AnalysisCommand.ofNat command).perform id program a args
  | .learner l program regularizer =>
    (LearnerCommand.ofNat command).perform id program regularizer
      { l with regularizer := ← regularizerAt regularizer } args
  | .regularizer r => (RegularizerCommand.ofNat command).perform id r args
  | .gradients g => (GradientsCommand.ofNat command).perform id g args
  | .formulary f program => (FormularyCommand.ofNat command).perform id program f args
  | .formulaLearner epochs f program =>
    (FormulaLearnerCommand.ofNat command).perform epochs f program args
  | .builder schema theory database =>
    (BuilderCommand.ofNat command).perform id schema theory database args
  | .system s => (SystemCommand.ofNat command).perform s args
  | .bindings values database => (BindingsCommand.ofNat command).perform id values database args
  | .preferences p => (PreferencesCommand.ofNat command).perform id p args
  | .console program training testing answers =>
    (ConsoleCommand.ofNat command).perform id program training testing answers args
  | .experiment configuration => (ExperimentCommand.ofNat command).perform configuration args
  | .lexicon l => (LexiconCommand.ofNat command).perform id l args
  | .undefined kind numbered => (UndefinedCommand.ofNat command).perform id kind numbered args
  | .draft formulary mode => (DraftCommand.ofNat command).perform formulary mode
  | .plan .. | .plans _ | .collection _ | .rule .. => missing

inductive ValueCommand where
  | shown | printed | written | database | get | take | item | union | modeArity | modeFunctor
  | modeArgs | modeArg | isInput | isOutput | isConstant | prototype | arity | functor | args | head
  | body | features | generator | variableNames | variableCount | numberVariables | key | name
  | source | users | isConnected | type | number | inputs | outputs | isDefined | mode
  deriving DecidableEq, Repr

def ofTerm? (t : Option (Term α)) : Value α := (t.map .goal).getD .nothing

def ofTerms? (ts : Option (List (Term α))) : Value α :=
  (ts.map fun ts => .list (ts.map .goal)).getD .nothing

def ValueCommand.performOnMode (m : Mode) (args : Args α) : ValueCommand → Work α (Value α)
  | .modeArity | .arity => return .integer m.goal.arity
  | .modeFunctor | .functor => return .text m.goal.functor
  | .modeArgs => return .ofTexts m.goal.args
  | .modeArg => return .text (← argument)
  | .isInput => return .truth ((← argument) == "i")
  | .isOutput => return .truth ((← argument) == "o")
  | .isConstant => do
    let a ← argument
    return .truth (a != "i" && a != "o")
  | .prototype => return .goal (.ofGoal m.goal)
  | .key => return .text m.goal.text
  | _ => missing
where
  argument : Work α String := do lift (itemAt m.goal.args (← args.get 0))

def ValueCommand.performOnVariable (v : String) (f : VariableFlow) :
    ValueCommand → Work α (Value α)
  | .name => return .text v
  | .source => return (f.source.map .ofNat).getD .nothing
  | .users => return .list (f.uses.map .ofNat)
  | .isConnected => return .truth f.connected
  | .type => return .ofName f.type
  | _ => missing

def ValueCommand.performOnGoalFlow (n : Nat) (g : GoalFlow) (m : Option Mode) :
    ValueCommand → Work α (Value α)
  | .number => return .ofNat n
  | .inputs => return .set g.inputs
  | .outputs => return .set g.outputs
  | .isDefined => return .truth g.defined
  | .mode =>
    match m with
    | some m => return .mode m
    | none => missing
  | _ => missing

def ValueCommand.performOnGoal (t : Term α) : ValueCommand → Work α (Value α)
  | .arity => return .integer t.args.length
  | .functor => return .ofDatum t.functor
  | .args => return .list (t.args.map .ofDatum)
  | _ => missing

def ofGoals? (goals : Option Nat) : Value α :=
  (goals.map fun id => .view (.collection id)).getD .nothing

def ValueCommand.performOnRule (c : Clause α) : ValueCommand → Work α (Value α)
  | .head => return ofTerm? c.head
  | .body => return ofTerms? (some c.body)
  | .features => return ofTerms? c.features
  | .generator => return ofTerms? c.generator
  | .variableNames => return .nothing
  | .variableCount => return .integer (-1)
  | .numberVariables => throw .undefinedName
  | _ => missing

def Bench.legible (b : Bench α) : Nat → Value α → Value α
  | 0, v => v
  | n + 1, .list items => .list (items.map (b.legible n))
  | n + 1, .tuple items => .tuple (items.map (b.legible n))
  | n + 1, .dictionary entries => .dictionary (entries.map fun (k, v) => (k, b.legible n v))
  | _ + 1, .plan place => told place
  | _ + 1, .step place => told place
  | _ + 1, v => v
where
  told (place : PlanPlace) : Value α :=
    match b.partAt? place with
    | some (.plan p) => .described (p.shown.toOption.getD "") (p.shown.toOption.getD "")
    | some (.step s) => .described s.shown s.shown
    | none => .nothing

/-- Performs a command on a list, a dictionary, or what has parts. -/
def ValueCommand.performOnContainer (v : Value α) (args : Args α) (c : ValueCommand) :
    Work α (Option (Value α)) := do
  let b : Bench α ← state
  let (place, contents) := match v with
    | .view place => (some place, b.contents place)
    | v => (none, v)
  match c, contents with
  | .get, .dictionary entries =>
    return some ((← entryOf? entries (← args.get 0)).getD (← args.getD 1 .nothing))
  | .item, contents => return some (← itemUnder place contents (← args.get 0))
  | .take, contents =>
    return some (← popItem place contents (← args.filterMapM fun v => v.mapM settle))
  | c, .thing id =>
    match b.things[id]? with
    | some (.rule _ goals weights ranged _) =>
      match c with
      | .body => return some (.view (.collection goals))
      | .features => return some (ofGoals? weights)
      | .generator => return some (ofGoals? ranged)
      | _ => return none
    | _ => return none
  | _, _ => return none

def ValueCommand.perform (v : Value α) (args : Args α) (c : ValueCommand) : Work α (Value α) := do
  if let some v ← c.performOnContainer v args then return v
  let d := (← settings).dialect
  let v := (← state).legible nesting (← settle v)
  match c, v with
  | .shown, _ => return .text v.shown
  | .printed, _ => return .text (v.printed d)
  | .written, .rule c _ => return .text (c.text (← dialectAt d))
  | .database, .builtDatabase b => return ((← builtDatabase? b).map .thing).getD .nothing
  | .union, .set items =>
    let more ← args.mapM fun
      | some v => textsOf v
      | none => pure []
    return .set ((items ++ more.flatten).eraseDups)
  | c, .mode m => c.performOnMode m args
  | c, .goal t => c.performOnGoal t
  | c, .rule r _ => c.performOnRule r
  | c, .variableFlow v f => c.performOnVariable v f
  | c, .goalFlow n g m => c.performOnGoalFlow n g m
  | _, _ => missing
where
  dialectAt (usual : Dialect) : Work α Dialect := do
    match ← args.valueD 0 .nothing with
    | .nothing => return usual
    | v => return Choice.dialectOf v.datum

def Toolbox.perform (command : Nat) (args : Args α) : Toolbox → Work α (Value α)
  | .matrices => (MatrixCommand.ofNat command).perform args
  | .numbers => mapNumbers args
  | .commandLines => (CommandLineCommand.ofNat command).perform args

structure Vocabularies where
  things : List Vocabulary
  toolboxes : List Vocabulary
  plans : Vocabulary
  steps : Vocabulary
  values : Vocabulary

namespace Vocabularies

def call (vs : Vocabularies) (v : Value α) (name : String) (args : List (Value α))
    (named : List (String × Value α)) : Work α (Value α) := do
  let find (t : Vocabulary) : Work α (Nat × Args α) := lift (t.find name args named)
  match v with
  | .thing id =>
    let t ← thingAt id
    let commands := vs.things.getD t.ctorIdx []
    match t with
    | .undefined .. => perform id ((commands.number? name).getD commands.length) (args.map some)
    | .rule .. =>
      let (c, args) ← find vs.values
      (ValueCommand.ofNat c).perform v args
    | _ =>
      let (c, args) ← find commands
      perform id c args
  | .plan place =>
    let (c, args) ← find vs.plans
    (PlanCommand.ofNat c).perform place (← planAt place) args
  | .step place =>
    let (c, args) ← find vs.steps
    (StepCommand.ofNat c).perform place (← stepAt place) args
  | .toolbox t =>
    let (c, args) ← find (vs.toolboxes.getD t.ctorIdx [])
    t.perform c args
  | v =>
    let (c, args) ← find vs.values
    (ValueCommand.ofNat c).perform v args

/-- What a value has under a command's name: a method or a function. -/
def command? (vs : Vocabularies) (v : Value α) (name : String) : Work α (Option (Value α)) := do
  let told (t : Vocabulary) (kind : String) : Option (Value α) :=
    if (t.number? name).isSome then some (.named kind) else none
  match v with
  | .thing id => return told (vs.things.getD (← thingAt id).ctorIdx []) "method"
  | .plan _ => return told vs.plans "method"
  | .step _ => return told vs.steps "method"
  | .toolbox t => return told (vs.toolboxes.getD t.ctorIdx []) "function"
  | _ => return none

/-- What a value has under a name: what it was given, an item, what a command tells, or a command.
-/
def part (vs : Vocabularies) (v : Value α) (name : String) : Work α (Value α) := do
  let b : Bench α ← state
  let contents := match v with
    | .view place => b.contents place
    | v => v
  match contents, Text.readInteger? name with
  | .list items, some i | .tuple items, some i => lift (itemAt items i)
  | .thing id, _ =>
    match ← noted? id name, (b.preferencesAt id).get? name with
    | some v, _ => return v
    | none, some d => return .ofDatum d
    | none, none => told
  | _, _ => told
where
  told : Work α (Value α) := do
    try vs.call v ("." ++ name) [] []
    catch e =>
      match e, ← vs.command? v name with
      | .missingPart, some v => return v
      | e, _ => throw e

/-- Whether a thing uses what it is given, as a shrinking regularizer does. -/
def takesParts : Thing α → Bool
  | .regularizer (.shrink _) => true
  | .regularizer _ => false
  | _ => true

/-- Puts something under a name, by a command if there is one. -/
def setPart (vs : Vocabularies) (v : Value α) (name : String) (given : Value α) :
    Work α Unit := do
  match v with
  | .thing id =>
    let t ← thingAt id
    let commands := vs.things.getD t.ctorIdx []
    match t with
    | .preferences p => replace id (.preferences (p.put name given.datum))
    | t =>
      if takesParts t && (commands.number? ("=" ++ name)).isSome then
        let _ ← vs.call v ("=" ++ name) [given] []
      else note id name given
  | _ => missing

def reach (vs : Vocabularies) (path : List String) : Work α (Value α) := do
  path.tail.foldlM vs.part (← lookup (path.headD ""))

end Vocabularies

end BeliefLogic.Workbench
