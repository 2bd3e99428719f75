import BeliefLogic.Workbench.Arguments

/-!
# Commands on data

Each command reads its arguments by position and answers with a value.
-/

namespace BeliefLogic.Workbench

open Run Text

variable {α : Type} [Scalar α]

inductive SymbolsCommand where
  | insert | names | name | has | number | count | reserved | places | numbers
  deriving DecidableEq, Repr

def SymbolsCommand.perform (id : Nat) (t : Symbols) (names : List (Value α)) (args : Args α) :
    SymbolsCommand → Work α (Value α)
  | .insert => do
    let _ ← added (← args.get 0)
    return .nothing
  | .names => return .list names
  | .name => do lift (itemAt (.nothing :: names) (← args.get 0))
  | .has => do return .truth (t.has (← keyForm (← args.get 0)))
  | .number => do return .ofNat (← added (← args.get 0))
  | .count => return .ofNat t.size
  | .reserved => return .set []
  | .places => return .list (.nothing :: names)
  | .numbers => return .dictionary (names.zipIdx.map fun (v, i) => (v, .ofNat (i + 1)))
where
  keyForm (v : Value α) : Work α String := if v.isKey then return v.keyForm else mismatch
  added (v : Value α) : Work α Nat := do
    let form ← keyForm v
    if t.has form then return (t.intern form).1
    replace id (.symbols (t.insert form) (names ++ [v]))
    return names.length + 1

inductive SchemaCommand where
  | isTypeless | defaultType | types | insertType | domain | range | argType | declare | count | has
  | number | name | summary | save | savedText | addFile | check | isUntouched | readLines
  | readSaved
  deriving DecidableEq, Repr

def SchemaCommand.perform (id : Nat) (s : Schema) (args : Args α) :
    SchemaCommand → Work α (Value α)
  | .isTypeless => return .truth s.isTypeless
  | .defaultType => return .text (← lift s.defaultType)
  | .types => return .ofTexts s.types
  | .insertType => do
    if s.isTypeless then refuse .typeInUntyped
    let type : String ← args.get 0
    onSchema id (Run.modifyChecked (·.insertType type))
  | .domain => argType (.integer 0)
  | .range => argType (.integer 1)
  | .argType => do argType (← args.get 2)
  | .declare => do
    if s.isTypeless then refuse .declaredInUntyped
    let functor : String ← args.get 0
    let types ← itemsOf (← args.get 1)
    onSchema id (Run.declareTypes functor (← types.mapM ofValue))
  | .count => return .ofNat (← lift (s.count (← args.typeName 0 s)))
  | .has => do
    let t ← lift (s.table (← args.typeName 0 s))
    match ← entityOf (← args.get 1) with
    | .ok entity => return .truth (t.has entity)
    | .error _ => return .truth false
  | .number => do
    let (n, s) ← lift (s.intern (← args.typeName 0 s) (← args.get 1))
    replace id (.schema s)
    return .ofNat n
  | .name => do
    let t ← lift (s.table (← args.typeName 0 s))
    return .ofName (← lift (t.name (← args.get 1)))
  | .summary => return .text (s.summary.getD "<object>")
  | .save => do Run.saveSchema s (← args.get 0)
  | .savedText => return .text s.text
  | .addFile => do
    let type : Option String ← args.get 0
    let path : String ← args.get 1
    onSchema id (Run.addSymbolFile type path)
  | .check => do
    args.atMost (if s.isTypeless then 1 else 2)
    if s.isTypeless then return .nothing
    let strict : Bool ← args.getD 1 false
    for v in ← itemsOf (← args.get 0) do
      let (functor, arity) ← lift v.pair
      let p ← Args.predicate [some functor, some arity] 0
      Run.checkTyping s [p] strict
    return .nothing
  | .isUntouched => do if s.isTypeless then return .truth s.isUntouched else missing
  | .readLines => do
    let lines ← linesOf (← args.get 0)
    let read ← lift
      (if s.isTypeless then Schema.readUntyped lines.texts else Schema.readTyped lines.texts)
    lines.finish
    made (.schema read)
  | .readSaved => do made (.schema (← Run.loadSchema (← args.get 0)))
where
  argType (i : Value α) : Work α (Value α) := do
    if s.isTypeless then return .text thing
    if !i.isKey then mismatch
    match i.whole? with
    | none => throw .notFound
    | some i =>
      match ← args.predicate? 0 with
      | some p => return .ofName (← lift (s.argType p i))
      | none => if i = 0 ∨ i = 1 then return .nothing else throw .notFound

inductive TheoryCommand where
  | size | listing | rulesFor | agrees | add | rules | groups | dialect | map | key
  deriving DecidableEq, Repr

def ruleOf? : Value α → Option Rule
  | .rule c _ => some c.rule
  | _ => none

/-- The number of the rule that a value is, kept from then on. -/
def ruleNumber? (v : Value α) : Work α (Option Nat) := do
  match v with
  | .rule c made => return some (← keepRule c made)
  | .thing id => return ((← state).ruleAt? id).map fun _ => id
  | _ => return none

def rulesIn (v : Value α) : Work α (List (Value α)) := do
  match v with
  | .thing id =>
    match ← thingAt id with
    | .theory _ _ => return ((← state).theoryAt id).rules.map .ofRule
    | _ => mismatch
  | v => itemsOf v

def agreesWith : List Rule → List (Value α) → Work α Bool
  | r :: rules, v :: values => do
    match ruleOf? v with
    | some s => if r.text .operator = s.text .operator then agreesWith rules values else return false
    | none => if v.isTrue then missing else return false
  | _, _ => return true

def TheoryCommand.perform (id : Nat) (t : Theory) (groups : List (String × Nat)) (args : Args α) :
    TheoryCommand → Work α (Value α)
  | .size => return .ofNat t.size
  | .listing => Run.print t.listing
  | .rulesFor => do
    let g ← declaredMode (← args.get 0)
    return match groups.lookup g.goal.key with
      | some group => .view (.collection group)
      | none => .nothing
  | .agrees => do return .truth (← agreesWith t.rules (← rulesIn (← args.get 0)))
  | .add => do
    match ← ruleNumber? (← args.given 0) with
    | some r =>
      addRule id r
    | none => missing
  | .rules => do
    let b : Bench α ← state
    return .list ((groups.flatMap fun (_, group) => b.ruleNumbers group).map .thing)
  | .groups => return .view (.groups id)
  | .dialect =>
    return .text (match t.dialect with
      | .clause => "proppr"
      | .operator => "pythonic")
  | .map => do
    match t.groups.find? fun g => !g.2.isEmpty with
    | none => return .nothing
    | some (filed, _) =>
      say ("Trouble mapping rule " ++ filed ++ ":")
      mismatch
  | .key => do return .text (← declaredMode (← args.get 0)).goal.key

def freshSchema : Option Bool → Work α Schema
  | some true => return .emptyTyped
  | some false => return .emptyUntyped
  | none => return Database.initialSchema (← settings)

/-- The schema over which facts are read: a given one, or a new one. -/
def schemaFor (v : Value α) : Work α Nat := do
  if let .nothing := v then return ← keep (.schema (← freshSchema none))
  match ← meant? v with
  | some (id, .schema _) => return id
  | _ => missing

/-- A new database of the facts in files, over a schema if given. -/
def factDatabase (paths schema : Value α) : Work α Nat := do
  let paths ← lift paths.sentence
  let schema ← schemaFor schema
  let id ← keep (.database (.ofSchema ((← state).schemaAt schema)) schema)
  onDatabase id (addFactFiles paths)
  return id

/-- The database of files, through a copy unless that is stale. -/
def cachedDatabase (directory : String) (paths schema : Value α) : Work α Nat := do
  let sources ← if (← Run.files).exist directory then
      pure (fields ':' (← lift paths.sentence))
    else pure []
  if ← isStale directory sources then
    let id ← factDatabase paths schema
    Run.saveDatabase (← database id) directory
    setFiles ((← Run.files).touch directory)
    return id
  else keepDatabase (← loadDatabase directory)

inductive DatabaseCommand where
  | addFacts | dropPending | keepFile | completeFacts | isTypeless | checkTyping | dim | oneHot
  | zeros | nullRows | ones | isTransposed | matrix | vector | preimage | preimageMatrix
  | preimageOnes | preimageType | isParam | markParamOld | markParam | clearParams | param | has
  | setParam | symbol | symbolId | rowSymbols | matrixSymbols | denseSymbols | facts | summary
  | listing | relationCount | size | paramSize | partner | save | saveRelations | importRelations
  | loadRelations | params | paramSet | schema | relations | readFacts | readSaved | readCached
  | typeOrDefault | keepLine | completeRelation
  deriving DecidableEq, Repr

def relationOf : Value α → Work α (Predicate × String)
  | .mode m => return (m.predicate, m.text)
  | .goal t => return (⟨t.goal.functor, t.goal.arity⟩, t.goal.text)
  | _ => missing

def modeOf : Value α → Work α Mode
  | .mode m => return m
  | _ => missing

def storedMatrix : Value α → Work α (Matrix α)
  | .matrix m => return m
  | _ => missing

def heightOf (v : Value α) : Work α Nat := do
  let n : Int ← ofValue v
  if n < 0 then throw .malformed
  return n.toNat

def selectionOf : Value α → Except Error Database.Selection
  | .nothing => .ok .all
  | .text "params" => .ok .params
  | .text "fixed" => .ok .fixed
  | _ => .error (.refused .badFilter)

def factsValue (p : Predicate) (facts : List (List (Option String) × α)) :
    Value α :=
  .dictionary (facts.map fun (names, x) =>
    (.goal (.ofGoal ⟨p.functor, names.map (·.getD "None")⟩), .number x))

def DatabaseCommand.perform (id : Nat) (db : Database α) (args : Args α) :
    DatabaseCommand → Work α (Value α)
  | .addFacts => do
    let items ← itemsOf (← args.get 0)
    let lines := GivenLines.ofValues items
    onDatabase id (startFacts lines.texts)
    lines.finish
    onDatabase id Run.completeFacts
  | .dropPending => onDatabase id Run.dropPending
  | .keepFile => do
    let source ← args.value 0
    let label : String := match source with
      | .text path => path
      | _ => "<lines>"
    let lines ← linesOf source
    onDatabase id (keepFacts label lines.texts)
    lines.finish
  | .completeFacts => onDatabase id Run.completeFacts
  | .isTypeless => return .truth db.isTypeless
  | .checkTyping => Run.checkTyping db.schema db.relations.keys false
  | .dim => return .ofNat (← lift (db.dim (← args.typeName 0 db.schema)))
  | .oneHot => do
    let type ← args.typeName 1 db.schema
    if ← args.getD 2 false then
      match ← entityOf (← args.get 0) with
      | .ok entity => lift (db.oneHotOrUnknown entity type)
      | .error _ => lift (db.oneHot Symbols.unknown type)
    else entityRow db type (← args.get 0)
  | .zeros => do
    let width ← lift (db.dim (← args.typeName 1 db.schema))
    return .matrix (.empty (← heightOf (← args.getD 0 (.integer 1))) width)
  | .nullRows => do
    let type ← args.typeName 1 db.schema
    let width ← args.valueD 2 (.integer 0)
    let count : Int ← args.getD 0 1
    let width ← match width.whole? with
      | some 0 => pure (.ofNat (← lift (db.dim (some (type.getD thing)))))
      | _ => pure width
    let width ← heightOf width
    return .matrix (← lift (Database.nullRows (← heightOf (.integer count)) width))
  | .ones => do lift (db.ones (← args.typeName 0 db.schema))
  | .isTransposed => return .truth (← transposed (← args.getD 1 (.truth false)))
  | .matrix => do matrixOf (← args.getD 1 (.truth false))
  | .vector => do
    let (p, text) ← relationOf (← args.get 0)
    if p.arity ≠ 1 then refuse (.notUnary text)
    match db.relations.get? p with
    | some x => return .ofOperand x
    | none => throw (.noRow p.functor p.arity)
  | .preimage => do
    let mode ← modeOf (← args.get 0)
    lift (db.preimage mode)
  | .preimageMatrix => matrixOf (.truth true)
  | .preimageOnes => do lift (db.preimageOnes (← modeOf (← args.get 0)))
  | .preimageType => do return .ofName (← lift (db.preimageType (← modeOf (← args.get 0))))
  | .isParam => do return .truth (db.isParam (← relationOf (← args.get 0)).1)
  | .markParamOld => do
    warn "MatrixDB.markAsParam is deprecated - use markAsParameter"
    let m ← args.mark 0
    onDatabase id (Run.update (·.mark m))
  | .markParam => do
    let m ← args.mark 0
    onDatabase id (Run.update (·.mark m))
  | .clearParams => onDatabase id (Run.update Database.clearParams)
  | .param => do return .ofOperand (← lift (db.paramOperand (← args.paramName 0 db)))
  | .has => do return .truth (((← args.predicate? 0).map db.relations.contains).getD false)
  | .setParam => do
    if (← args.predicate? 0).isNone && db.isMarked (← args.mark 0) then return .nothing
    let p ← args.paramName 0 db
    let v ← args.value 2
    onDatabase id (Run.modifyChecked (·.putParam p v.operand))
  | .symbol => do
    let t ← lift (db.schema.table (some (← lift (db.resolve (← args.typeName 1 db.schema)))))
    return .ofName (← lift (t.name (← args.get 0)))
  | .symbolId => do
    let type ← args.typeName 1 db.schema
    match ← entityOf (← args.get 0) with
    | .ok entity => return .integer (← lift (db.symbolId entity type))
    | .error _ =>
      let _ ← lift (db.schema.table (some (← lift (db.resolve type))))
      return .integer (-1)
  | .rowSymbols => do
    let m ← storedMatrix (← args.get 0)
    return .ofWeights (← lift (db.matrixRowSymbols m (← args.typeName 1 db.schema)))
  | .matrixSymbols => do
    let m ← storedMatrix (← args.get 0)
    let rows ← lift (db.matrixSymbols m (← args.typeName 1 db.schema))
    return .dictionary (rows.zipIdx.map fun (d, i) => (.ofNat i, .ofWeights d))
  | .denseSymbols => do
    let items ← itemsOf (← args.get 0)
    if items.isEmpty then return .dictionary [] else missing
  | .facts => do
    let p ← args.predicate 0
    return factsValue p (← relationFacts db p (← args.get 2))
  | .summary => return .text (← lift (db.summary (← args.knownPredicate 0)))
  | .listing => listDatabase db
  | .relationCount => return .ofNat db.relationCount
  | .size => return .ofNat (← lift db.size)
  | .paramSize => return .ofNat (← lift db.paramSize)
  | .partner => do
    let schema := (← state).schemaOf id
    made (.database (.ofSchema db.schema) schema)
  | .save => do Run.saveDatabase db (← args.get 0)
  | .saveRelations => do
    let selection ← lift (selectionOf (← args.valueD 1 .nothing))
    let path : String ← args.get 0
    Run.saveRelations db path selection
  | .importRelations => do
    let path : String ← args.get 0
    onDatabase id (Run.importRelations path)
  | .loadRelations => do
    let relations ← Run.loadRelations (← args.get 0)
    return .dictionary (relations.entries.map fun (p, m) => (.ofPredicate p, .matrix m))
  | .params => return .view (.params id)
  | .paramSet => return .set (db.marks.map Mark.text)
  | .schema => return .thing ((← state).schemaOf id)
  | .relations => return .view (.relations id)
  | .readFacts => do return .thing (← factDatabase (← args.get 0) (← args.getD 1 .nothing))
  | .readSaved => do return .thing (← keepDatabase (← loadDatabase (← args.get 0)))
  | .readCached => do
    return .thing (← cachedDatabase (← args.get 0) (← args.get 1) (← args.getD 2 .nothing))
  | .typeOrDefault => do
    match ← args.value 0 with
    | .nothing => return .text (← lift db.schema.defaultType)
    | v => return v
  | .keepLine => do
    let line ← lift (← args.value 0).sentence
    let label := (← args.value 1).printed (← settings).dialect
    let number : Nat ← args.get 2
    onDatabase id (addFactLine label number line)
  | .completeRelation => do
    let p ← args.predicate 0
    onDatabase id do
      changePending p fun q => q
      Run.completeRelation p (((← state).pending.get? p).getD {})
where
  /-- Whether a mode's matrix is the transpose of its relation's. -/
  transposed (transpose : Value α) : Work α Bool := do
    let mode ← modeOf (← args.get 0)
    let plain ← lift (Database.isTransposed mode true)
    return (transpose.truth?.map fun t => plain == t).getD false
  matrixOf (transpose : Value α) : Work α (Value α) := do
    let (p, text) ← relationOf (← args.get 0)
    if p.arity ≠ 2 then refuse (.notBinary text p.arity)
    match db.relations.get? p with
    | none => refuse (.noMatrix text)
    | some x =>
      return .ofOperand (← if ← transposed transpose then lift x.transpose else pure x)

inductive ExamplesCommand where
  | isSingle | extract | modes | has | inputs | outputs | size | shuffle | minibatches | summary
  | save | write | inputTable | outputTable | readLines | readQueries | ofRelation | readSaved
  | readCached | ofCachedRelation | readLine
  deriving DecidableEq, Repr

def databaseOf (v : Value α) : Work α (Database α) := do
  match ← meant? v with
  | some (id, .database _ _) => database id
  | _ => missing

def outcome {β : Type} (act : Work α β) : Work α (Except Error β) :=
  tryCatch (return .ok (← act)) fun e => return .error e

/-- The examples in lines for a database, needed once a line says something. -/
def lineExamples (db source : Value α) (queries : Bool) : Work α (Examples α) := do
  let lines ← linesOf source
  let e ← match ← outcome (databaseOf db) with
    | .ok db => lift (Examples.ofLines (← settings) db queries lines.texts)
    | .error failure =>
      for line in lines.texts do
        if (← lift (ExampleLine.parse queries line)).isSome then throw failure
      pure {}
  lines.finish
  return e

def modeText : Value α → Work α String
  | .mode m => return m.text
  | .text s => return s
  | _ => mismatch

/-- The name of a relation whose matrix is looked up. -/
def relationName : Value α → Work α String
  | .text functor => return functor
  | v => if v.isKey then throw .notFound else mismatch

def relationExamples (db mode functor : Value α) : Work α (Examples α) := do
  let db ← databaseOf db
  require db.isTypeless .typedMatrix
  lift (Examples.ofRelation db (← modeText mode) (← relationName functor))

def exampleMode (v : Value α) : Work α (Except String Mode) := do
  match v with
  | .mode m => return .ok m
  | v => if v.isKey then return .error (v.printed (← settings).dialect) else mismatch

def batchValue (b : Batch α) : Value α := .tuple [.mode b.mode, .matrix b.inputs, .matrix b.outputs]

def ExamplesCommand.perform (id : Nat) (e : Examples α) (args : Args α) :
    ExamplesCommand → Work α (Value α)
  | .isSingle => return .truth e.isSingle
  | .extract => do
    match ← exampleMode (← args.get 0) with
    | .ok mode => made (.examples (← lift (e.extract mode)))
    | .error text => refuse (.noExamples text)
  | .modes => return .list (e.modes.map .mode)
  | .has => do return .truth ((← exampleMode (← args.get 0)).toOption.any e.has)
  | .inputs => found e.inputs
  | .outputs => found e.outputs
  | .size => return .ofNat (← lift e.size)
  | .shuffle => onExamples id shuffleExamples
  | .minibatches => do
    let count : Amount α ← args.getD 0 (.whole 100)
    let reordered : Bool ← args.getD 1 true
    let batches ← onExamples id (Run.minibatches count reordered)
    return .list (← batches.mapM fun b => return batchValue (← lift b))
  | .summary => return .ofTexts (← lift e.summary)
  | .save => do saveExamples e (← args.get 0)
  | .write => do
    let path : String ← args.get 0
    let db ← outcome (databaseOf (← args.get 1))
    let mode ← args.valueD 3 .nothing
    let modes ← outcome (if mode.isTrue then return [← only mode] else return e.modes)
    writeExamples e path db (← args.getD 2 false) modes
  | .inputTable => return .view (.inputs id)
  | .outputTable => return .view (.outputs id)
  | .readLines => do kept (← lineExamples (← args.get 0) (← args.get 1) (← args.getD 2 false))
  | .readQueries => do kept (← lineExamples (← args.get 0) (← args.get 1) true)
  | .ofRelation => do kept (← relationExamples (← args.get 0) (← args.get 1) (← args.get 2))
  | .readSaved => do kept (← restoreExamples (← args.get 0))
  | .readCached => do
    let directory : String ← args.get 0
    let source ← args.value 2
    if (← Run.files).exist directory then
      let stale ← isStale directory [← ofValue source]
      if !stale then return ← kept (← restoreExamples directory)
    let e ← lineExamples (← args.get 1) source (← args.getD 3 true)
    saveExamples e directory
    setFiles ((← Run.files).touch directory)
    kept e
  | .ofCachedRelation => do
    let directory : String ← args.get 0
    let db ← databaseOf (← args.get 1)
    kept (← cachedRelation directory db (← modeText (← args.get 2))
      (← relationName (← args.get 3)))
  | .readLine => do
    let line ← lift (← args.value 0).sentence
    match ← lift (ExampleLine.parse (← args.getD 1 true) line) with
    | some l => return .tuple [.mode l.mode, .text l.input, .ofTexts l.outputs]
    | none => return .tuple [.nothing, .nothing, .nothing]
where
  kept (e : Examples α) : Work α (Value α) := made (.examples e)
  found (d : Dictionary Mode (Operand α)) : Work α (Value α) := do
    match ← exampleMode (← args.get 0) with
    | .ok mode => return .ofOperand (← lift (Examples.find d mode))
    | .error _ => throw .notFound
  only (v : Value α) : Work α Mode := do
    match ← exampleMode v with
    | .ok mode => pure mode
    | .error _ => refuse (.noOutputs (← inserted (·.printed (← settings).dialect) v))

inductive MatrixCommand where
  | describe | summary | checkStored | checkDefined | greatest | denseSize | sparseSize | height
  | width | positions | mean | summedRows | map | stack | replicate | softmax | broadcastMultiply
  | multiplyRow | weighted | reorder | slice | denseCopy | denseCopies | ofDenseCopy | alterRows
  | denseSoftmax
  deriving DecidableEq, Repr

def limitPart (given : Value α) (standard : Datum α) : Work α (Datum α) := do
  return if (← numberOf given) < 0 then standard else given.datum

def limitOf (args : Args α) (i : Nat) : Work α (DenseLimit α) := do
  let s ← settings
  return .ofData (← limitPart (← args.getD i (.integer (-1))) s.denseFactor)
    (← limitPart (← args.getD (i + 1) (.integer (-1))) s.denseIntercept)

def windowValue (w : Window) : Value α := .tuple [.ofNat w.first, .ofNat w.width]

def requireStored (v context : Value α) : Work α Unit := do
  match v with
  | .matrix _ => pure ()
  | v =>
    let s ← settings
    require (!s.careful) (.notStored (context.printed s.dialect) v.shown)

def checkedMatrix (v : Value α) : Work α (Matrix α) := do
  requireStored v (.text "unknown")
  storedMatrix v

def checkDatabase : Value α → Work α Unit
  | .builtDatabase _ => pure ()
  | v => do let _ ← databaseOf v

def rowOf (order : Value α) (i : Nat) : Except Error Int :=
  match order with
  | .list items | .tuple items =>
    match items[i]? with
    | some (.integer r) => .ok r
    | some (.truth r) => .ok (if r then 1 else 0)
    | some (.number _) | none => .error .outOfRange
    | some _ => .error .illTyped
  | .text s => .error (if i < s.length then .illTyped else .outOfRange)
  | .dictionary _ => .error .notFound
  | _ => .error .illTyped

def MatrixCommand.perform (args : Args α) : MatrixCommand → Work α (Value α)
  | .describe => do
    let m ← checked 0
    return .text ("nnz " ++ natural m.stored ++ " rows " ++ natural m.height ++
      " cols " ++ natural m.width)
  | .summary => do
    match ← args.value 0 with
    | .nothing => return .text "___"
    | v => return .text (Database.shapeText (← checkedMatrix v))
  | .checkStored => do requireStored (← args.get 0) (← args.getD 1 (.text "unknown"))
  | .checkDefined => do
    let s ← settings
    if s.careful then
      let m ← checked 0
      let context ← args.valueD 1 (.text "unknown")
      require (!m.values.any Scalar.isUndefined) (.undefinedValue (context.printed s.dialect))
    return .nothing
  | .greatest => do
    match (← storedMatrix (← args.get 0)).greatest? with
    | some x => return .number x
    | none => return .integer (-1)
  | .denseSize => do
    let lo : Amount α ← args.get 1
    let hi : Amount α ← args.get 2
    match lo, hi with
    | .whole lo, .whole hi => return .integer ((← checked 0).denseSize lo hi)
    | lo, hi =>
      let columns := (← lift hi.number) - (← lift lo.number)
      return .number (columns * Scalar.ofNat (← checked 0).height)
  | .sparseSize => do return .integer (← checked 0).sparseSize
  | .height => do return .ofNat (← checked 0).height
  | .width => do return .ofNat (← checked 0).width
  | .positions => do
    let m ← storedMatrix (← args.get 0)
    return .list ((← lift (m.storedPositions (← positionOf (← args.get 1)))).map .ofNat)
  | .mean => do lift (← checked 0).mean
  | .summedRows => do Run.summedRows (← checked 0)
  | .map => do
    let m ← checked 1
    let f : Elementwise ← args.get 0
    lift (m.mapM f.apply)
  | .stack => do
    let items ← match ← args.value 0 with
      | .matrix m => pure ((List.range m.height).map fun i => .matrix (m.rowMatrix i))
      | v => itemsOf v
    lift (Matrix.stack (← items.mapM checkedMatrix))
  | .replicate => do
    let m ← checked 0
    require (m.height = 1) .repeatedRows
    lift (m.replicate (← args.get 1))
  | .softmax => do
    checkDatabase (← args.get 0)
    Run.softmax (← checked 1)
  | .broadcastMultiply => do Run.broadcastMultiply (← checked 0) (← checked 1)
  | .multiplyRow => do Run.multiplyRow (← checked 0) (← checked 1)
  | .weighted => do Run.weighted (← checked 0) (← checked 1)
  | .reorder => do
    let m ← checked 0
    match ← args.valueD 1 .nothing with
    | .nothing =>
      let order := (← nextShuffling).turns (List.range m.height)
      lift (m.permute (Examples.listedOrder order.toArray))
    | order => lift (m.permute (rowOf order))
  | .slice => do
    let m ← checked 0
    let last ← match ← (args.get 2 : Work α (Amount α)) with
      | .whole n => pure (some n)
      | .real x => pure (if Scalar.ofNat m.height < x then some m.height else none)
      | .written _ | .other _ => mismatch
    let first ← positionOf (← args.get 1)
    match last with
    | some n => lift (m.slice first n)
    | none => throw .outOfRange
  | .denseCopy => do
    let limit ← limitOf args 1
    let copy := (← storedMatrix (← args.get 0)).denseCopy limit
    reportCopy copy
    match ← lift copy with
    | .made d w => return .tuple [.dense d, windowValue w]
    | _ => return .tuple [.nothing, .nothing]
  | .denseCopies => do
    let m ← checked 0
    let n ← checked 1
    if m.width = n.width ∧ (m.stored = 0 ∨ n.stored = 0) then
      return .tuple [.nothing, .nothing, .nothing]
    let copy := m.denseCopies (← limitOf args 2) n
    reportCopy copy
    match ← lift copy with
    | .made (d, e) w => return .tuple [.dense d, .dense e, windowValue w]
    | _ => return .tuple [.nothing, .nothing, .nothing]
  | .ofDenseCopy => do
    let (start, columns) ← lift (← args.value 1).pair
    let (lines, entries) ← match ← args.value 0 with
      | .dense d => pure (d.rows.length, (d.rows.zipIdx.map fun (r, i) =>
          r.zipIdx.map fun (x, j) => (i, j, x)).flatten)
      | .matrix m => pure (m.height, m.entries)
      | .row _ => throw .malformed
      | _ => missing
    let start : Nat ← ofValue start
    let columns ← heightOf columns
    let entries := (entries.filter fun (_, _, x) => !Scalar.isZero x).map fun (i, j, x) =>
      (i, j + start, x)
    return .matrix (← lift (Matrix.ofEntries lines columns entries))
  | .alterRows => do if (← checked 0).height = 0 then return .nothing else mismatch
  | .denseSoftmax => do
    match ← args.value 0 with
    | .dense d => return .dense (← lift d.softmax)
    | .matrix _ => throw .malformed
    | _ => missing
where
  checked (i : Nat) : Work α (Matrix α) := do checkedMatrix (← args.get i)

end BeliefLogic.Workbench
