import BeliefLogic.Workbench.Recipe

/-!
# Builders and systems

A builder collects rules, types and facts. A system takes a database and a program.
-/

namespace BeliefLogic.Workbench

open Run Text

variable {α : Type} [Scalar α]

def makeBuilder : Work α (Value α) := do
  let schema ← keep (.schema .emptyTyped)
  let theory ← keep (.theory .operator [])
  let _ ← introduce "builder" (.builder schema theory none)
  assign "schema" (.thing schema)
  assign "rules" (.thing theory)

inductive BuilderCommand where
  | variableNames | firstVariable | types | relation | relations | ruleNames | ruleName | addRule
  | addTypes | addFacts | rules | schema | database | setDatabase
  deriving DecidableEq, Repr

def currentDialect : Work α Dialect := return (← settings).dialect

def declareGoals (schema : Nat) (r : Rule) : Work α Unit :=
  onSchema schema (r.body.forM fun g => Run.declareTypes g.functor g.args)

def ensureDatabase (id schema theory : Nat) : Option Nat → Work α Nat
  | some db => pure db
  | none => do
    let db ← keep (.database (.ofSchema ((← state).schemaAt schema)) schema)
    replace id (.builder schema theory (some db))
    return db

/-- The database that a builder takes, read over the builder's schema. -/
def takenDatabase (schema : Nat) : Value α → Work α (Option Nat)
  | .thing db => do
    match ← thingAt db with
    | .database _ _ =>
      warn "schema definition is discarded when you assign a database to builder.db"
      return some db
    | _ => refuse (.assignedDatabase (Value.thing db : Value α).shown)
  | .text source => do
    if isCached source then
      let (copy, facts) ← copyAndSource source
      return some (← cachedDatabase copy (.text facts) (.thing schema))
    else if endsWith ".db" source then return some (← keepDatabase (← loadDatabase source))
    else return some (← factDatabase (.text source) (.thing schema))
  | v => do refuse (.assignedDatabase (← inserted Value.shown v))

def BuilderCommand.perform (id schema theory : Nat) (database : Option Nat) (args : Args α) :
    BuilderCommand → Work α (Value α)
  | .variableNames | .types => return .ofTexts (Clause.names (← args.get 0))
  | .firstVariable => return .text ((Clause.names (← args.get 0)).headD "")
  | .relation => do
    let _ : String ← args.get 0
    return .named "function"
  | .relations => return .list ((Clause.names (← args.get 0)).map fun _ => .named "function")
  | .ruleNames => do
    let type : Datum α ← args.get 0
    return .list ((← lift (Clause.ofRuleNames type (← args.get 1))).map fun c => .rule c true)
  | .ruleName => do
    let type : Datum α ← args.get 0
    match ← lift (Clause.ofRuleNames type (← args.get 1)) with
    | c :: _ => return .rule c true
    | [] => throw .outOfRange
  | .addRule => do
    match ← ruleNumber? (← args.given 0) with
    | some r =>
      Workbench.addRule theory r
      return .thing theory
    | none =>
      let v ← args.value 0
      refuse (.clauseSyntax "<object>" "+=" (v.printed (← currentDialect)))
  | .addTypes => do
    if database.isSome then
      warn "Adding to builder.schema after builder.db is initialized, this is dangerous"
    let v ← args.value 0
    match ruleOf? v with
    | some r =>
      declareGoals schema r
      return .thing schema
    | none =>
      refuse (.declarationSyntax (((← state).schemaAt schema).summary.getD "")
        (v.printed (← currentDialect)))
  | .addFacts => do
    let db ← ensureDatabase id schema theory database
    let source ← args.value 0
    let label : String := match source with
      | .text path => path
      | _ => "<lines>"
    let lines ← linesOf source
    onDatabase db (keepFacts label lines.texts)
    lines.finish
    return .thing db
  | .rules => return .thing theory
  | .schema => return .thing schema
  | .database => return .builtDatabase id
  | .setDatabase => do
    match ← args.value 0 with
    | .builtDatabase other =>
      if other = id then return .nothing
      else refuse (.assignedDatabase (Value.builtDatabase other : Value α).shown)
    | v =>
      replace id (.builder schema theory (← takenDatabase schema v))

def builtDatabase? (builder : Nat) : Work α (Option Nat) := do
  match ← thingAt builder with
  | .builder _ _ database => return database
  | _ => return none

def namedDatabase (v : Value α) : Work α Nat := do
  match v with
  | .thing id =>
    match ← thingAt id with
    | .database _ _ => return id
    | _ => refuse (.noDatabase v.shown)
  | .builtDatabase builder =>
    match ← builtDatabase? builder with
    | some id => return id
    | none => missing
  | .text source => keepDatabase (← Run.databaseAt source)
  | v => refuse (.noDatabase (← inserted Value.shown v))

/-- The program of a value, or one made of the rules that it names. -/
def programFor (database : Nat) (features : Bool) (v : Value α) : Work α Nat := do
  let ofTheory (features : Bool) (theory : Nat) : Work α Nat :=
    keepProgram features theory (some database) {} none
  match v with
  | .nothing => ofTheory true (← keep (.theory .operator []))
  | .thing id =>
    match ← thingAt id with
    | .program .. => return id
    | .builder _ theory _ => ofTheory true theory
    | .theory .. => ofTheory true id
    | _ => refuse (.noProgram v.shown)
  | .text files => ofTheory features (← keepTheory (← readRuleFiles files))
  | v => refuse (.noProgram (← inserted Value.shown v))

def makeSystem (target database program : Value α) (features setWeights : Bool) :
    Work α (Value α) := do
  let db ← namedDatabase database
  onDatabase db Run.completeFacts
  let prog ← programFor db features program
  if setWeights then onModel prog Run.setAllWeights
  match target with
  | .text "theano" =>
    let formulary ← keep (.formulary {} prog)
    let _ ← introduce "simple" (.system ⟨db, prog, formulary⟩)
    assign "xc" (.thing formulary)
    assign "db" (.thing db)
    assign "prog" (.thing prog)
    match ← thingAt prog with
    | .program _ theory _ _ => return .thing theory
    | _ => return .nothing
  | .text "tensorflow" => refuse (.noTarget "tensorflow")
  | v => refuse (.badTarget (← inserted Value.shown v))

inductive SystemCommand where
  | proofCount | inference | loss | markParam | paramNames | placeholder | params | hasParam | param
  | setParam | takeLearned | saveDatabase | saveProgram | smallExamples | bigExamples | modes
  | minibatches | formulary | program | database | examples | smallTable | bigTable | target
  deriving DecidableEq, Repr

def readExamples (db : Database α) : Value α → Work α (Examples α)
  | .text source => Run.examplesAt db source
  | v => do
    match ← givenLines? v with
    | some lines =>
      let e ← lift (Examples.ofLines (← settings) db false lines.texts)
      lines.finish
      return e
    | none => refuse (.noExampleSource v.shown)

/-- How many rows of single numbers a gigabyte takes. -/
def rowsPerGigabyte (columns : Nat) : Except Error Float :=
  if columns = 0 then .error .divisionByZero
  else .ok (1073741824.0 / (columns.toFloat * 4.0))

def reportSize (mode : Mode) (name : String) (m : Matrix α) : Work α Unit := do
  let rows ← lift (rowsPerGigabyte m.width)
  say ("mode " ++ mode.text ++ ": " ++ name ++ " is sparse " ++ natural m.height ++ " x " ++
    natural m.width ++ " matrix (about " ++ fixed 1 rows ++ " rows/Gb)")

def smallTable (e : Examples α) : Work α (Value α) := do
  if e.modes.isEmpty then throw .outOfRange
  return .dictionary (← e.modes.mapM fun m => do
    return (.text m.text,
      .tuple [.matrix (← lift (e.inputsFor m)), .matrix (← lift (e.outputsFor m))]))

def reportSizes (e : Examples α) : Work α Unit := do
  for m in e.modes do
    reportSize m "X" (← lift (e.inputsFor m))
    reportSize m "Y" (← lift (e.outputsFor m))

def examplesOfEntries (entries : List (Value α × Value α)) : Work α (Examples α) := do
  let items ← entries.mapM fun (k, v) => do
    let (x, y) ← lift v.pair
    let mode : Mode ← ofValue k
    return (mode, x.operand, y.operand)
  if items.isEmpty then throw .unset
  return { inputs := .ofList (items.map fun (m, x, _) => (m, x)),
           outputs := .ofList (items.map fun (m, _, y) => (m, y)) }

def namedBatch (b : Batch α) : Value α :=
  .tuple [.text b.mode.text, .tuple [.matrix b.inputs, .matrix b.outputs]]

def formulaPart (s : System) (args : Args α) (c : FormularyCommand) : Work α (Value α) := do
  match ← thingAt s.formulary with
  | .formulary f _ =>
    match ← c.perform s.formulary s.program f args with
    | .tuple [_, e] => return e
    | v => return v
  | _ => mismatch

def databasePart (s : System) (args : Args α) (c : DatabaseCommand) : Work α (Value α) := do
  c.perform s.database (← Workbench.database s.database) args

def pairedArgs (args : Args α) : Work α (Args α) := do
  let (functor, arity) ← lift (← args.value 0).pair
  return [some functor, some arity]

def SystemCommand.perform (s : System) (args : Args α) : SystemCommand → Work α (Value α)
  | .proofCount => formulaPart s args .proofCount
  | .inference => formulaPart s args .inference
  | .loss => formulaPart s args .loss
  | .markParam => do
    match fields '/' (← lift (← args.value 0).sentence) with
    | [functor, arity] =>
      match readInteger? arity with
      | some n => databasePart s [some (.text functor), some (.integer n)] .markParam
      | none => throw .malformed
    | _ => throw .malformed
  | .paramNames => do
    let forOptimization : Bool ← args.getD 1 false
    formulaPart s (args.take 1) (if forOptimization then .paramVariables else .paramHandles)
  | .placeholder => refuse .unstated
  | .params => do
    match ← thingAt s.program with
    | .program _ _ _ (some db) => return .view (.params db)
    | _ => missing
  | .hasParam => do databasePart s (← pairedArgs args) .has
  | .param => do databasePart s (← pairedArgs args) .param
  | .setParam => do
    let relation ← pairedArgs args
    match ← thingAt s.formulary, ← relation.predicate? 0 with
    | .formulary f _, some p => require (f.handle? p).isNone .alreadyUsed
    | _, _ => pure ()
    databasePart s (relation ++ [some (← args.given 1)]) .setParam
  | .takeLearned => formulaPart s [] .exportParams
  | .saveDatabase => do Run.saveDatabase (← Workbench.database s.database) (← args.get 0)
  | .saveProgram => do
    let directory : String ← args.get 0
    onModel s.program (Run.saveProgram directory)
  | .smallExamples => do
    Workbench.smallTable (← readExamples (← Workbench.database s.database) (← args.get 0))
  | .bigExamples => do
    let e ← readExamples (← Workbench.database s.database) (← args.get 0)
    reportSizes e
    made (.examples e)
  | .modes => do
    match ← args.value 0 with
    | .dictionary entries => return .list (entries.map (·.1))
    | .thing id =>
      match ← thingAt id with
      | .examples e => return .list (e.modes.map .mode)
      | _ => refuse (.noExampleSet (Value.thing id : Value α).shown)
    | v => refuse (.noExampleSet (← inserted Value.shown v))
  | .minibatches => do
    let batchSize : Amount α ← args.getD 1 (.whole 100)
    let shuffle : Bool ← args.getD 2 true
    match ← args.value 0 with
    | .dictionary entries =>
      let e ← examplesOfEntries entries
      let (batches, _) ← Run.within e (Run.minibatches batchSize shuffle)
      return .list ((← lift (batches.mapM fun b => b)).map namedBatch)
    | .thing id =>
      match ← thingAt id with
      | .examples _ =>
        let batches ← onExamples id (Run.minibatches batchSize shuffle)
        return .list ((← lift (batches.mapM fun b => b)).map namedBatch)
      | _ => refuse (.noExampleSet (Value.thing id : Value α).shown)
    | v => refuse (.noExampleSet (← inserted Value.shown v))
  | .formulary => return .thing s.formulary
  | .program => return .thing s.program
  | .database => return .thing s.database
  | .examples => do
    let e ← readExamples (← Workbench.database s.database) (← args.get 0)
    made (.examples e)
  | .smallTable => do Workbench.smallTable (← examplesOf (← args.get 0)).2
  | .bigTable => do
    let (id, e) ← examplesOf (← args.get 0)
    reportSizes e
    return .thing id
  | .target => return .text "theano"

end BeliefLogic.Workbench
