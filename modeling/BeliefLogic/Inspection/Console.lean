import BeliefLogic.Inspection.Tree

/-!
# Questions to a program

Rules, relations and plans can be listed, queries asked and plans inspected.
-/

namespace BeliefLogic.Run

variable {α : Type} [Scalar α]

def consoleHelp : List String :=
  ["ti.helpConfig(): help on configuration options",
    "ti.list(foo): foo can be a compiled function, eg \"foo/io\", a predicate definition, eg",
    "              \"foo/2\", or a database predicate, also specified as \"foo/2\".",
    "ti.list():    list everything.",
    "ti.eval(\"functor/mode\",\"c\",inputType=type1,outputType=type2): " ++
      "evaluate a function on a database constant c",
    "ti.debug(\"functor/mode\",\"c\"): debug the corresponding eval command",
    "ti.debugDset(\"functor/mode\"[,test=True]): run debugger on a dataset",
    "ti.set(depth=d): reset the max depth",
    "ti.set(normalize='none'|'softmax'|'log+softmax'): reset the normalizer",
    "ti.set(echo=N): number of top items to print when doing an eval",
    "ti.set(trace=True|False): print summary of messages sent in inference",
    "ti.set(maxTraceMsg=N): print data in messages if they have fewer than N non-zero entries"]

def optionHelp (s : Settings α) : List String :=
  Choice.listing s ++
    ["To set any option above, use something like: ti.conf.funs.trace = True"]

def listAll : Modelling α Unit := do
  print (← state).program.theory.listing
  listDatabase (← database)

def listRelation (p : Predicate) : Modelling α Unit := do
  match (← state).program.theory.rulesFor? p.text with
  | some rules => rules.forM fun r => do say (r.text (← settings).dialect)
  | none =>
    let db ← database
    if db.relations.contains p then say (← lift (db.summary p))

/-- Lists a relation by its arity, or the plan of a mode. -/
def listNamed (what : String) : Modelling α Unit := do
  require (what.toList.contains '/') .listedFormat
  match Text.fields '/' what with
  | [functor, rest] =>
    match Text.readInteger? rest with
    | some arity => listRelation ⟨functor, arity.toNat⟩
    | none =>
      let plan ← queryPlan (← lift (Mode.parse what))
      say ("\n".intercalate (← planLines plan))
  | _ => fail .malformed

def firstInputType (p : Plan) : Except Error (Option String) :=
  match p.inputTypes with
  | none => .error .illTyped
  | some [] => .error .outOfRange
  | some (t :: _) => .ok t

/-- The types of a question, by default those of the plan. -/
def questionTypes (plan : Plan) (inputType outputType : Option String) :
    Except Error (Option String × Option String) := do
  let inputType ← match inputType.filter (· ≠ "") with
    | some t => pure (some t)
    | none => firstInputType plan
  return (inputType, Plan.firstType outputType plan.outputType)

def resetDepth (d : Depth) : Modelling α Unit :=
  onProgram (update fun p => { p.forgetPlans with maxDepth := d })

def resetNormalization (n : Normalization) : Modelling α Unit :=
  onProgram (update fun p => { p.forgetPlans with normalization := n })

/-- The answers to a question about an entity, by name. -/
def ask (mode : Mode) (given : Except Error (Option String × Option String))
    (row : Database α → Option String → Except Error (Matrix α)) :
    Modelling α (Dictionary (Option String) α) := do
  let plan ← queryPlan mode
  let types ← lift given
  let types ← lift (questionTypes plan types.1 types.2)
  let db ← database
  let x ← lift (row db types.1)
  lift (db.matrixRowSymbols (← planAnswers plan [x]) types.2)

def showAnswers {σ : Type} (d : Dictionary (Option String) α) (shown : Nat) : Run α σ Unit := do
  for ((name, x), rank) in ((← lift (ranked d)).take shown).zipIdx do
    say (Text.natural (rank + 1) ++ "\t" ++ Text.general 6 (Scalar.toFloat x) ++ "\t" ++
      nameText name)

def inspectEntity (mode : Mode) (row : Except Error (Matrix α)) : Modelling α Unit := do
  let db ← database
  require db.isTypeless .typedInspection
  let x ← lift row
  let y ← lift (db.zeros 1 none)
  let _ ← inspect mode (.ofMode mode x y) false
  fail .noScreen

def inspectExamples (mode : Except Error Mode) (examples : Option (Examples α)) :
    Modelling α Unit := do
  require (← database).isTypeless .typedInspection
  match examples with
  | none => say "train/test dataset is not specified on command line?"
  | some examples =>
    let mode ← lift mode
    let _ ← inspect mode (← lift (examples.extract mode)) true
    fail .noScreen

end BeliefLogic.Run
