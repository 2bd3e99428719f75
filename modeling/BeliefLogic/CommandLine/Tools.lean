import BeliefLogic.CommandLine.LearnerSpec
import BeliefLogic.CommandLine.Sources
import BeliefLogic.Inspection.Console
import BeliefLogic.Text.Grid

/-!
# Tools

The programs that a command line can start.
-/

namespace BeliefLogic

open Text

inductive Tool where
  | list | ask | experiment | examples | options | rules | version | compile | matrices | inspect
  deriving DecidableEq, Repr

def Tool.names : List (String × Tool) :=
  [("list", .list), ("ask", .ask), ("experiment", .experiment), ("examples", .examples),
    ("options", .options), ("rules", .rules), ("version", .version), ("compile", .compile),
    ("matrices", .matrices), ("inspect", .inspect)]

namespace Run

variable {α σ : Type} [Scalar α]

def writtenRelation (s : String) : Except Error (String × Int) :=
  match fields '/' s with
  | [functor, arity] =>
    match readInteger? arity with
    | some n => .ok (functor, n)
    | none => .error .malformed
  | _ => .error .malformed

def listUsage : List String :=
  ["usage: python -m list --db dbspec [--mode mode]",
    "  without mode specified: lists the relations in the database",
    "  with mode specified: lists the facts in one relation in .cfacts format",
    "usage: python -m list --prog progspec [--ruleIds]",
    "  list the all rule ids"]

def listFacts (db : Database α) (p : Predicate) (m : Matrix α) : Run α σ Unit := do
  for (names, w) in ← relationFacts db p m do
    match names.mapM id with
    | some names => say ("\t".intercalate (p.functor :: names ++ [Text.general 6 (Scalar.toFloat w)]))
    | none => fail .illTyped

def listTool (args : List String) : Run α σ Unit := do
  let (flags, _) ← tryCatch
    (lift (Flag.read [⟨"x", false⟩] [⟨"db", true⟩, ⟨"mode", true⟩, ⟨"prog", true⟩, ⟨"ruleIds", false⟩] args))
    fun e => do
      listUsage.forM say
      fail e
  let flags := Dictionary.ofList flags
  let db ← (flags.get? "--db").mapM databaseAt
  match db, flags.get? "--mode", flags.get? "--prog" with
  | some db, none, _ => listDatabase db
  | some db, some mode, _ =>
    let (functor, arity) ← lift (writtenRelation mode)
    let p : Predicate := ⟨functor, arity.toNat⟩
    match if arity < 0 then none else db.relation? p with
    | some m => listFacts db p m
    | none => refuse .listedMode
  | none, _, some rules =>
    let model ← modelAt (α := α) true rules none
    for name in (model.program.features.map (·.ruleNames)).getD [] do
      say ("ruleid\t" ++ name)
  | none, _, none => listUsage.forM say

def askTool (args : List String) : Run α σ Unit := do
  let _ : Arguments α ← readArguments {} (args.map .text)
  say "Usage: python -i -m tensorlog [opts]"
  say "- For option help: 'python -m tensorlog --help'"
  say "- The interpreter is really only useful with the -i option."

def experimentFlags : ExtraFlags where
  consumer := some "expt"
  flags := ["learner", "savedModel", "learnerOpts", "targetMode", "savedTestPredictions",
    "savedTestExamples", "savedTrainExamples", "params", "weightEpsilon"].map fun name => ⟨name, true⟩
  usage :=
    ["expt-specific options, given after the argument +++:",
      "    --savedModel e      # where e is a filename",
      "    --learner f         # where f is the name of a learner class",
      "    --learnerOpts g     # g is a string that \"evals\" to a python dict",
      "    --weightEpsilon eps # parameter weights multiplied by eps",
      "    --params p1/k1,..   # comma-sep list of functor/arity pairs"]

def markParams (written : String) : Modelling α Unit := do
  for item in fields ',' written do
    let (functor, arity) ← lift (writtenRelation item)
    onDatabase (update (·.markParam ⟨functor, arity⟩))

def configurationText (entries : List (String × String)) : String :=
  parenthesized [quoted "Expt configuration:",
    "\x7b" ++ ", ".intercalate (entries.map fun (k, v) => quoted k ++ ": " ++ v) ++ "\x7d"]

def anObject : String := "<object>"

def experimentTool (args : List String) : Run α σ Unit := do
  let arguments : Arguments α ← readArguments experimentFlags (args.map .text)
  let flag (name : String) : Option String :=
    (arguments.flags.get? ("--" ++ name)).bind Argument.text?
  let scale ← match (flag "weightEpsilon").map readLiteral? with
    | none => pure 1
    | some (some x) => pure (Scalar.ofLiteral x)
    | some none => fail .malformed
  say (parenthesized ["'weightEpsilon = '", shortest (Scalar.toFloat scale)])
  let ((), model) ← within arguments.model do
    if let some params := flag "params" then markParams params
    setFeatureWeights (.real scale)
    setRuleWeights none (.real scale) none
  let learner : Option (Learner α) ←
    (flag "learner").mapM fun name => learnerNamed scale name (flag "learnerOpts")
  match arguments.training, arguments.testing with
  | some training, some testing =>
    let text (name : String) : String × String :=
      (name, ((flag name).map quoted).getD "None")
    say (configurationText [("prog", anObject), ("trainData", anObject), ("testData", anObject),
      ("learner", if learner.isSome then anObject else "None"), text "savedModel", text "targetMode", text "savedTestPredictions",
      text "savedTestExamples", text "savedTrainExamples"])
    let saved (name : String) : Option String := (flag name).filter (· ≠ "")
    let target ← (saved "targetMode").mapM fun mode => lift (Mode.parse mode)
    let e : Experiment α :=
      { learner := learner.getD (.standard .batch), target, savedModel := saved "savedModel"
        savedAnswers := saved "savedTestPredictions", savedTesting := saved "savedTestExamples"
        savedTraining := saved "savedTrainExamples" }
    let _ ← within { model, training, testing := some testing } (perform e)
  | _, _ => fail .notFound

def examplesTool (args : List String) : Run α σ Unit := do
  match args with
  | [] => fail .outOfRange
  | "--serialize" :: rest =>
    match rest with
    | [facts, source, directory] =>
      let db : Database α ←
        if endsWith ".cfacts" facts then loadFacts facts (Database.initialSchema (← settings))
        else if endsWith ".db" facts then loadDatabase facts
        else refuse .examplesUsage
      let queries := endsWith ".examples" source
      require (queries || endsWith ".exam" source) .examplesUsage
      saveExamples (← loadExamples db source queries) directory
    | _ => refuse .examplesUsage
  | _ => pure ()

def rulesTool (paths : List String) : Run α σ Unit := do
  for path in paths do
    say ("\nparsed from file " ++ quoted path ++ ":")
    print (← readRuleFile path none).listing

def compileTool (args : List String) : Run α σ Unit := do
  match args with
  | "experiment" :: rest =>
    let ((), p) ← within (Preferences.experiment (α := α)) (setPreferences (rest.map .text))
    let text (name : String) : String := match p.get? name with
      | some (.text s) => s
      | _ => ""
    let db ← databaseAt (α := α) (text "db")
    let model ← modelAt true (text "prog") (some db)
    let _ ← within model setAllWeights
    refuse (.noTarget "tensorflow")
  | _ => say ("usage: experiment " ++ Preferences.usage (Preferences.experiment (α := α)))

def matricesTool : Run α σ Unit := do
  let rows : List Nat := (List.range 10).map (· + 1)
  say (integerGrid (rows.map fun (i : Nat) => [(i : Int), 0, 0, 0, 5 * i]))
  for start in [0, 4, 8] do
    let part := (rows.reverse.drop start).take 4
    say (Text.grid (part.map fun (i : Nat) => [i.toFloat, 0, 0, 0, 5 * i.toFloat]))

def inspectTool (args : List String) : Run α σ Unit := do
  let usage := say "debug.py [usual tensorlog options] mode [inputs]"
  let arguments : Arguments α ← readArguments {} (args.map .text)
  match arguments.training.or arguments.testing, arguments.rest.filterMap Argument.text? with
  | none, [] | none, [_] =>
    usage
    say "debug on what input? specify --trainData or give a function input"
  | some _, [] => usage
  | some _, _ :: _ :: _ :: _ => say "using --trainData not the function input given"
  | some examples, mode :: _ =>
    let mode ← lift (Mode.parse mode)
    let _ ← within arguments.model (inspect mode examples true)
    fail .noScreen
  | none, mode :: _ =>
    let _ ← lift (Mode.parse mode)
    fail .undefinedName

end Run

def Tool.run {α σ : Type} [Scalar α] (args : List String) : Tool → Run α σ Unit
  | .list => Run.listTool args
  | .ask => Run.askTool args
  | .experiment => Run.experimentTool args
  | .examples => Run.examplesTool args
  | .options => do (Choice.listing (← Run.settings)).forM Run.say
  | .rules => Run.rulesTool args
  | .version => pure ()
  | .compile => Run.compileTool args
  | .matrices => Run.matricesTool
  | .inspect => Run.inspectTool args

end BeliefLogic
