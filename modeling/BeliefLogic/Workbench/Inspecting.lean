import BeliefLogic.CommandLine.Tools
import BeliefLogic.Workbench.Building

/-!
# Questions, inspections and experiments

Questions at a console, the tree of a plan, experiments, command lines, preferences and variables.
-/

namespace BeliefLogic.Workbench

open Run Text

variable {α : Type} [Scalar α]

def namedExamples? (name : String) : Work α (Option Nat) := do
  match ← meant? ((← lookup? name).getD .nothing) with
  | some (id, .examples _) => return some id
  | _ => return none

def examples? (id : Option Nat) : Work α (Option (Examples α)) :=
  return id.map (← state).examplesAt

def makeConsole : Work α (Value α) := do
  let program ← currentProgram
  let _ ← introduce "interp"
    (.console program (← namedExamples? "dset") (← namedExamples? "test") (.integer 10))
  return .nothing

inductive ConsoleCommand where
  | help | set | list | ask | inspect | inspectExamples | optionHelp | program | answers | database
  | training | testing
  deriving DecidableEq, Repr

def askedMode (program : Nat) : Value α → Work α Mode
  | .text s => lift (Mode.parse s)
  | v => plannedMode program v

def answerCount (found : Nat) (v : Value α) : Work α Nat :=
  match v.amount with
  | .whole n => return n.toNat
  | .real x => if x < Scalar.ofNat found then mismatch else return found
  | _ => mismatch

def ConsoleCommand.perform (id program : Nat) (training testing : Option Nat) (answers : Value α)
    (args : Args α) : ConsoleCommand → Work α (Value α)
  | .help => consoleHelp.forM say
  | .set => do
    let depth : Option (Value α) ← args.getD 0 none
    let shown : Option (Value α) ← args.getD 1 none
    let normalization : Option (Value α) ← args.getD 2 none
    -- Who looks at the table of plans goes on looking at the old one.
    if let some depth := depth then
      let _ ← ProgramCommand.perform program [] .forgetPlans
      onModel program (resetDepth (.ofDatum depth.datum))
      note program depthNote depth
    if let some normalization := normalization then
      let _ ← ProgramCommand.perform program [] .forgetPlans
      onModel program (resetNormalization (.ofDatum normalization.datum))
      note program normalizationNote normalization
    if let some shown := shown then replace id (.console program training testing shown)
    if (← (args.getD 4 none : Work α (Option (Value α)))).isSome then throw .undefinedName
    if (← numberOf (← args.getD 3 (.integer (-1)))) < 0 then return .nothing
    else throw .undefinedName
  | .list => do
    match ← args.valueD 0 .nothing with
    | .nothing => onModel program listAll
    | .text what => onModel program (listNamed what)
    | _ => missing
    return .nothing
  | .ask => do
    let mode ← askedMode program (← args.get 0)
    let given ← outcome (do return (← args.getD 2 none, ← args.getD 3 none))
    let entity ← outcome (do entityOf (← args.get 1))
    let d ← onModel program (Run.ask mode given fun db type => do namedRow db type (← entity))
    if answers.isTrue then showAnswers d (← answerCount d.size answers)
    return .ofWeights d
  | .inspect => do
    let mode ← askedMode program (← args.get 0)
    let row ← outcome (do entityRow (← onModel program Run.database) none (← args.get 1))
    onModel program (inspectEntity mode row)
  | .inspectExamples => do
    let mode : Except Error Mode ← match ← args.value 0 with
      | .mode m => pure (.ok m)
      | .text s => pure (Mode.parse s)
      | _ => mismatch
    let test : Bool ← args.getD 1 false
    let examples ← examples? (if test then testing else training)
    onModel program (Run.inspectExamples mode examples)
  | .optionHelp => do (Run.optionHelp (← settings)).forM say
  | .program => return .thing program
  | .answers => return answers
  | .database => ProgramCommand.perform program [] .database
  | .training => return (training.map .thing).getD .nothing
  | .testing => return (testing.map .thing).getD .nothing

def inspectCurrent (mode : String) (graded : Bool) : Work α (Inspection α) := do
  let program ← currentProgram
  let examples ← match ← namedExamples? "dset" with
    | some id => pure ((← state).examplesAt id)
    | none => throw .unnamed
  require (mode ≠ "") .noInspectedMode
  let mode ← lift (Mode.parse mode)
  onModel program (Run.inspect mode examples graded)

/-- A node as a value: its place, text, and shapes. -/
def ofTreeRow (t : TreeRow α) : Value α :=
  .list [.text t.parent, .ofNat t.offset, .text t.key, .text t.text,
    .ofTexts [t.comment, Database.shapeText t.output, (t.delta.map Database.shapeText).getD "___"]]

def ofMessageLine (l : MessageLine) : Value α :=
  .list [.text l.parent, .ofNat l.offset, .ofName l.text, .ofName l.weight]

def lookInto (i : Inspection α) (key column : String) : Work α Message := do
  let s ← settings
  let db ← onModel (← currentProgram) Run.database
  return i.look s.sortByWeight db key column

inductive ExperimentCommand where
  | run | writeSolutions | score | time | configuration
  deriving DecidableEq, Repr

def experimentSettings : List String :=
  ["prog", "trainData", "testData", "targetMode", "savedTestPredictions", "savedTestExamples",
    "savedTrainExamples", "savedModel", "learner"]

def settingThing? (c : Dictionary String (Value α)) (name : String) : Option Nat :=
  match c.get? name with
  | some (.thing id) => some id
  | _ => none

def settingText? (c : Dictionary String (Value α)) (name : String) : Option String :=
  match c.get? name with
  | some (.text s) => if s = "" then none else some s
  | _ => none

def settingMode? (c : Dictionary String (Value α)) (name : String) : Work α (Option Mode) :=
  match c.get? name with
  | some (.mode m) => pure (some m)
  | some (.text s) => if s = "" then pure none else return some (← lift (Mode.parse s))
  | _ => pure none

def Bench.databaseOf? (b : Bench α) (program : Nat) : Option Nat :=
  match b.things[program]? with
  | some (.program _ _ _ database) => database
  | _ => none

/-- The database of what an experiment saves, if not that of the learner. -/
def Bench.archiveFor (b : Bench α) (given : Option Nat) (program : Nat) :
    Option (Except Error (Database α)) :=
  match given.bind b.databaseOf? with
  | none => some (.error .missingPart)
  | some db => if b.databaseOf? program = some db then none else some (.ok (b.databaseAt db))

/-- Runs an experiment and keeps all changes. -/
def runExperiment (c : Dictionary String (Value α)) : Work α (Value α) := do
  let b : Bench α ← state
  say (configurationText (c.entries.map fun (k, v) => (k, (b.settled nesting v).shown)))
  lift (if c.keys.all experimentSettings.contains then .ok () else .error .illTyped)
  let target ← settingMode? c "targetMode"
  let (learner, program) ← match ← (settingThing? c "learner").mapM thingAt with
    | some (.learner l program regularizer) =>
      pure ({ l with regularizer := ← regularizerAt regularizer }, some program)
    | _ => pure (Learner.standard .batch, settingThing? c "prog")
  match program, settingThing? c "trainData" with
  | some program, some training =>
    let testing := settingThing? c "testData"
    let e : Experiment α :=
      { learner, target, archive := b.archiveFor (settingThing? c "prog") program
        savedModel := settingText? c "savedModel"
        savedAnswers := settingText? c "savedTestPredictions"
        savedTesting := settingText? c "savedTestExamples"
        savedTraining := settingText? c "savedTrainExamples" }
    let shared := testing == some training
    let view (b : Bench α) : Trial α :=
      { model := b.modelAt program, training := b.examplesAt training
        testing := testing.map b.examplesAt, shared }
    let put (t : Trial α) (b : Bench α) : Bench α :=
      let b := b.putModel program t.model
      if target.isSome then b
      else { b with things := b.things.set! training (.examples t.training) }
    match ← Run.focus view put (Run.perform e) with
    | some (accuracy, entropy) =>
      return .tuple [(accuracy.map .number).getD (.integer 0), .number entropy]
    | none => return .tuple [.nothing, .nothing]
  | none, some training =>
    let e := (← state).examplesAt training
    let modes ← match target with
      | some mode => do pure (← lift (e.extract mode)).modes
      | none => pure e.modes
    announce "running untrained theory on train data"
    if let mode :: _ := modes then
      say (parenthesized [quoted ("Trouble with mode " ++ mode.text ++ ":"),
        "(<class 'AttributeError'>, AttributeError(\"'NoneType' object has no attribute " ++
          "'getPredictFunction'\"))"])
    missing
  | _, none =>
    if target.isNone then announce "running untrained theory on train data"
    missing

def ExperimentCommand.perform (c : Dictionary String (Value α)) (args : Args α) :
    ExperimentCommand → Work α (Value α)
  | .run => runExperiment c
  | .writeSolutions => do
    let path : String ← args.get 0
    let functor : String ← args.get 1
    let db ← outcome (databaseOf (← args.get 2))
    let x ← outcome (storedMatrix (← args.get 3))
    let p ← outcome (storedMatrix (← args.get 4))
    let append : Bool ← args.getD 5 false
    let start : Int ← args.getD 6 0
    return .ofNat (← Run.writeSolutions path functor db x p append start)
  | .score => do
    let (_, gold) ← examplesOf (← args.get 2)
    let (_, predicted) ← examplesOf (← args.get 3)
    let (accuracy, entropy) ← Run.score (← args.get 0) (← args.get 1) gold predicted
    return .tuple [(accuracy.map .number).getD (.integer 0), .number entropy]
  | .time => do
    say (parenthesized [(← args.value 0).shown, "'...'"])
    mismatch
  | .configuration => return .dictionary (c.entries.map fun (name, v) => (.text name, v))

def makePreferences (p : Preferences α) : Work α (Value α) := do
  match ← introduce "options" (.preferences p) with
  | .thing id => return .view (.preferences id)
  | v => return v

inductive PreferencesCommand where
  | set
  | toDictionary
  | usage
  deriving DecidableEq, Repr

def PreferencesCommand.perform (id : Nat) (p : Preferences α) (args : Args α) :
    PreferencesCommand → Work α (Value α)
  | .set => do
    let line ← argumentLine (← args.get 0)
    Run.focus (fun _ => p) (fun p b => { b with things := b.things.set! id (.preferences p) })
      (setPreferences line)
  | .toDictionary => return .view (.preferences id)
  | .usage => return .text p.usage

inductive BindingsCommand where
  | bind | get | put | text | table | changes | database
  deriving DecidableEq, Repr

def BindingsCommand.perform (id : Nat) (values : Dictionary String (Value α × Value α))
    (database : Nat) (args : Args α) : BindingsCommand → Work α (Value α)
  | .bind => do
    let names ← itemsOf (← args.get 0)
    let given ← itemsOf (← args.get 1)
    require (names.length = given.length) (.unequalBindings names.length given.length)
    let _ ← (names.zip given).foldlM (fun values (name, v) => put values name v) values
    return .nothing
  | .get => do
    let name ← args.value 0
    if !name.isKey then mismatch
    match values.get? name.keyForm with
    | some (_, v) => return v
    | none => throw .notFound
  | .put => do
    let _ ← put values (← args.get 0) (← args.given 1)
    return .nothing
  | .text => return .text ("Envir(" ++ (← settle (.dictionary values.values)).shown ++ ")")
  | .table => return .view (.values id)
  | .changes => return .dictionary []
  | .database => return .thing database
where
  put (values : Dictionary String (Value α × Value α)) (name v : Value α) :
      Work α (Dictionary String (Value α × Value α)) := do
    if !name.isKey then mismatch
    let values := values.put name.keyForm (name, v)
    replace id (.bindings values database)
    return values

inductive UndefinedCommand where
  | comment | children | copy | number | listing | takeLearned | add | defaultType | other
  deriving DecidableEq, Repr

def UndefinedCommand.perform (id : Nat) (kind : Undefined) (numbered : Bool) (args : Args α)
    (command : UndefinedCommand) : Work α (Value α) := do
  match kind, command with
  | .step, .comment | .plan, .comment => return .text ""
  | .step, .children => return .list []
  | .step, .number =>
    let next ← args.get 0
    replace id (.undefined kind true)
    return .integer (next + 1)
  | .plan, .number =>
    if numbered then throw .alreadyNumbered
    replace id (.undefined kind true)
    refuse .notDefined
  | .step, .listing | .plan, .listing => if numbered then refuse .notDefined else missing
  | .node, .copy => missing
  | .formulary, .takeLearned | .schema, .defaultType => return .nothing
  | .formulary, .add => return .integer ((← args.get 0) + (← args.get 1))
  | _, _ => refuse .notDefined

inductive CommandLineCommand where
  | isCached | parts | join | read | database | program | examples
  deriving DecidableEq, Repr

/-- Keeps the options of a command line, also without their dashes. -/
def keepArguments (a : Arguments α) : Work α (Value α) := do
  let db ← match a.model.database with
    | some db => pure (Value.thing (← keepDatabase db))
    | none => pure .nothing
  let theory ← keepTheory a.model.program.theory
  let plans ← keep (.plans a.model.program.plans)
  let database := match db with
    | .thing id => some id
    | _ => none
  let program ← keep (.program a.model.program theory plans database)
  let examples (e : Option (Examples α)) : Work α (Value α) := do
    match e with
    | some e => made (.examples e)
    | none => return .nothing
  let training ← examples a.training
  let testing ← examples a.testing
  let entry : String × Datum α → Value α
    | ("--db", _) => db
    | ("--prog", _) => .thing program
    | ("--trainData", _) => training
    | ("--testData", _) => testing
    | (_, v) => .ofDatum v
  let given := a.flags.entries.map fun f => (f.1, entry f)
  let bare := given.map fun (name, v) => (String.ofList (name.toList.drop 2), v)
  let all : List (Value α × Value α) := (given ++ bare).map fun (name, v) => (.text name, v)
  return .tuple [.dictionary all, .list (a.rest.map .ofDatum)]

/-- A described option: one with a value ends in an equals sign. -/
def flagOf (description : String) : Flag :=
  if endsWith "=" description then ⟨String.ofList (description.toList.dropLast), true⟩
  else ⟨description, false⟩

def CommandLineCommand.perform (args : Args α) : CommandLineCommand → Work α (Value α)
  | .isCached => return .truth (BeliefLogic.isCached (← source 0))
  | .parts => return .ofTexts (cachedParts (← source 0))
  | .join => do
    let d := (← settings).dialect
    let part (i : Nat) : Work α String := return (← args.value i).printed d
    return .text (cachedSource (← part 0) (← part 1))
  | .read => do
    let line ← argumentLine (← args.getD 0 (.list []))
    let consumer : Option String ← args.getD 1 none
    let flags : List String ← args.getD 2 []
    let usage : List String ← args.getD 3 []
    keepArguments (← Run.readArguments ⟨consumer, flags.map flagOf, usage⟩ line)
  | .database => do return .thing (← keepDatabase (← Run.databaseAt (← source 0)))
  | .program => do
    let files : String ← source 0
    let theory ← keepTheory (← readRuleFiles files)
    let db ← match ← args.value 1 with
      | .thing id => pure (some id)
      | _ => pure none
    return .thing (← keepProgram (← args.getD 2 false) theory db {} none)
  | .examples => do
    let text ← source 0
    made (.examples (← Run.examplesAt (← databaseOf (← args.get 1)) text))
where
  source (i : Nat) : Work α String := do
    match ← args.value i with
    | .text s => return s
    | _ => missing

def mapNumbers (args : Args α) : Work α (Value α) := do
  let f : Elementwise ← args.get 0
  let items : List (Value α) ← args.get 1
  return .list (← items.mapM fun v => return .number (← lift (f.apply (← numberOf v))))

end BeliefLogic.Workbench
