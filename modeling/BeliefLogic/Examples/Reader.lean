import BeliefLogic.Examples.Basic

/-!
# Reading and saving examples

A line holds a relation, an input and its outputs, or a query `p(x,Y)` and labelled answers
`+p(x,y)`.
-/

namespace BeliefLogic

open Text

/-- A line of the plain form. -/
structure ExampleLine where
  mode : Mode
  input : String
  outputs : List String
  deriving Repr

namespace ExampleLine

/-- A query at the start of a text: a name and two words in parentheses. -/
def queryAt? (cs : List Char) : Option (String × String × String) :=
  let name := cs.takeWhile isWordChar
  match cs.dropWhile isWordChar with
  | '(' :: rest =>
    let first := rest.takeWhile isWordChar
    match rest.dropWhile isWordChar with
    | ',' :: rest =>
      let second := rest.takeWhile isWordChar
      match rest.dropWhile isWordChar with
      | ')' :: _ =>
        if name.isEmpty || first.isEmpty || second.isEmpty then none
        else some (String.ofList name, String.ofList first, String.ofList second)
      | _ => none
    | _ => none
  | _ => none

def findQuery? : List Char → Option (String × String × String)
  | [] => none
  | c :: cs => queryAt? (c :: cs) <|> findQuery? cs

def answer? (line : String) (mode : Mode) (input : String) (labelled : String) :
    Except Error (Option String) :=
  match labelled.toList with
  | [] => .error .outOfRange
  | label :: rest =>
    match findQuery? rest with
    | none => .error (.refused (.badAnswer line))
    | some (functor, x, y) =>
      if functor ≠ mode.functor then
        .error (.refused (.otherMode functor mode.text line))
      else if x ≠ input then .error (.refused (.otherInput line))
      else .ok (if label = '+' then some y else none)

/-- Reads a line in the query form; a line without a query says nothing. -/
def ofQueryFields (line : String) (query : String) (answers : List String) :
    Except Error (Option ExampleLine) :=
  match findQuery? query.toList with
  | none => .ok none
  | some (functor, x, _) => do
    let mode ← Mode.parse (functor ++ "/io")
    let found ← answers.mapM (answer? line mode x)
    return some ⟨mode, x, found.filterMap id⟩

def parse (queries : Bool) (line : String) : Except Error (Option ExampleLine) :=
  let stripped := strip line
  if stripped.isEmpty || startsWith "#" line then .ok none
  else
    match queries, fields '\t' stripped with
    | false, functor :: x :: ys => do
      return some ⟨← Mode.parse (functor ++ "/io"), x, ys⟩
    | false, parts => .error (.refused (.shortExample line parts))
    | true, query :: answers => ofQueryFields line query answers
    | true, [] => .ok none

end ExampleLine

/-- The places of the examples of a mode. -/
structure ExampleEntries (α : Type) where
  height : Nat := 0
  inputs : List (Nat × Nat × α) := []
  outputs : List (Nat × Nat × α) := []
  deriving Inhabited

namespace Examples

variable {α : Type} [Scalar α]

/-- The number of an entity; unknown ones are read as the unknown entity. -/
def entityOrUnknown (s : Schema) (type : Option String) (symbol : String) : Except Error Nat := do
  let t ← s.table type
  match t.id? symbol with
  | some n => return n
  | none => return (t.intern Symbols.unknown).1

/-- The types of the inputs and outputs of a relation of two arguments. -/
def exampleTypes (s : Schema) (m : Mode) : Option String × Option String :=
  (s.domain ⟨m.functor, 2⟩, s.range ⟨m.functor, 2⟩)

def addLine (normalize : Bool) (s : Schema) (d : Dictionary Mode (ExampleEntries α))
    (line : ExampleLine) : Except Error (Dictionary Mode (ExampleEntries α)) := do
  let (xType, yType) := exampleTypes s line.mode
  let e := (d.get? line.mode).getD {}
  let x ← entityOrUnknown s xType line.input
  let ys ← line.outputs.mapM (entityOrUnknown s yType)
  let weight : α := if normalize then 1 / Scalar.ofNat ys.length else 1
  return d.put line.mode
    { height := e.height + 1
      inputs := (e.height, x, 1) :: e.inputs
      outputs := (ys.map fun y => (e.height, y, weight)).reverse ++ e.outputs }

def ofEntries (db : Database α) (d : Dictionary Mode (ExampleEntries α)) :
    Except Error (Examples α) := do
  let pairs ← d.entries.mapM fun (m, e) => do
    let (xType, yType) := exampleTypes db.schema m
    let x ← Matrix.ofWeights e.height (← db.dim xType) e.inputs.reverse
    let y ← Matrix.ofWeights e.height (← db.dim yType) e.outputs.reverse
    return (m, x, y)
  return .ofMatrices ⟨pairs.map fun (m, x, _) => (m, x)⟩ ⟨pairs.map fun (m, _, y) => (m, y)⟩

def addText (settings : Settings α) (s : Schema) (queries : Bool)
    (d : Dictionary Mode (ExampleEntries α)) (line : String) :
    Except Error (Dictionary Mode (ExampleEntries α)) := do
  match ← ExampleLine.parse queries line with
  | none => return d
  | some l => addLine settings.normalizeOutputs s d l

def ofLines (settings : Settings α) (db : Database α) (queries : Bool) (lines : List String) :
    Except Error (Examples α) := do
  ofEntries db (← lines.foldlM (addText settings db.schema queries) {})

/-- A row for the first entity of every pair, with the normalized row of all second ones. -/
def ofRelation (db : Database α) (mode : String) (relation : String) :
    Except Error (Examples α) := do
  if !db.isTypeless then throw (.refused .typedMatrix)
  let mode ← Mode.parse mode
  match db.relation? ⟨relation, 2⟩ with
  | none => throw .notFound
  | some m =>
    let n ← db.dim none
    let pairs ← m.entries.mapM fun (i, _, _) => do
      let row ← (← Matrix.unit m.height i : Matrix α).mul m
      let share ← Scalar.div? 1 (← row.total)
      return ((← Matrix.unit n i : Matrix α), ← row.scale share)
    let x ← Matrix.stack (pairs.map (·.1))
    let y ← Matrix.stack (pairs.map (·.2))
    return .ofMode mode x y

end Examples

namespace Run

variable {α σ : Type} [Scalar α]

def loadExamples (db : Database α) (path : String) (queries : Bool) : Run α σ (Examples α) := do
  lift (Examples.ofLines (← settings) db queries (← fileLines path))

/-- Modes whose text starts with an underscore are left out. -/
def saveExamples (e : Examples α) (directory : String) : Run α σ Unit := do
  let fs ← files
  if !fs.exist directory then setFiles (← lift (fs.makeSingleDirectory directory))
  let named (d : Dictionary Mode (Operand α)) : Except Error (List (Option String × Matrix α)) :=
    let items := (Dictionary.ofList (d.entries.map fun (m, x) => (m.text, x))).entries
    (items.filter fun (name, _) => !Text.startsWith "_" name).mapM fun (name, x) =>
      return (if isNarrow name then some name else none, ← x.saved)
  saveMatrices (Files.join directory "xDict") (← lift (named e.inputs))
  saveMatrices (Files.join directory "yDict") (← lift (named e.outputs))

def restoreExamples (directory : String) : Run α σ (Examples α) := do
  let xs ← loadMatrices (Files.join directory "xDict")
  let ys ← loadMatrices (Files.join directory "yDict")
  let named (items : List (String × Matrix α)) : Run α σ (Dictionary Mode (Matrix α)) := do
    return .ofList (← items.mapM fun (name, m) => do return (← lift (Mode.parse name), m))
  return .ofMatrices (← named xs) (← named ys)

/-- The examples of a file, through a saved copy unless that is stale. -/
def cachedExamples (directory : String) (db : Database α) (path : String) (queries : Bool) :
    Run α σ (Examples α) := do
  if ← isStale directory [path] then
    let e ← loadExamples db path queries
    saveExamples e directory
    setFiles ((← files).touch directory)
    return e
  else restoreExamples directory

/-- The examples of a relation, through a saved copy if there is one. -/
def cachedRelation (directory : String) (db : Database α) (mode relation : String) :
    Run α σ (Examples α) := do
  let progress (what name : String) : Run α σ Unit :=
    say (parenthesized ["'" ++ what ++ "'", quoted name, "'...'"])
  if !(← files).exist directory then
    progress "preparing examples from" mode
    let e ← lift (Examples.ofRelation db mode relation)
    progress "serializing dsetFile" directory
    saveExamples e directory
    return e
  else
    progress "de-serializing dsetFile" directory
    restoreExamples directory

def nameText (name : Option String) : String := name.getD "None"

def weightsText (d : Dictionary (Option String) α) : String :=
  "\x7b" ++ ", ".intercalate (d.entries.map fun (name, x) =>
    (name.map quoted).getD "None" ++ ": " ++ shortest (Scalar.toFloat x)) ++ "\x7d"

def queryLine (functor : String) (i : Nat) (x y : Dictionary (Option String) α) :
    Except Error String :=
  match x.keys with
  | [input] =>
    let query := functor ++ "(" ++ nameText input
    .ok (query ++ ",Y)" ++
      String.join (y.keys.map fun output => "\t+" ++ query ++ "," ++ nameText output ++ ")") ++ "\n")
  | _ => .error (.refused (.notOneHot i (weightsText x)))

/-- The examples of a mode in query form; the state is the text so far. -/
def writeQueries (e : Examples α) (db : Database α) (m : Mode) : Run α String Unit := do
  let p := m.predicate
  let listed (d : Dictionary Mode (Operand α)) : Except Error (Matrix α) := do
    (← Examples.find d m).toMatrix "shape"
  let xs ← lift (do db.matrixSymbols (← listed e.inputs) (db.schema.domain p))
  let ys ← lift (do db.matrixSymbols (← listed e.outputs) (db.schema.range p))
  if xs.isEmpty then fail .malformed
  for (x, i) in xs.zipIdx do
    let y ← match ys[i]? with
      | some y => pure y
      | none => fail .notFound
    let line ← lift (queryLine m.functor i x y)
    emit line

/-- Writes examples in query form. What was written before a failure stays. -/
def writeExamples (e : Examples α) (path : String) (db : Except Error (Database α)) (append : Bool)
    (modes : Except Error (List Mode)) : Run α σ Unit :=
  writing path append do
    for m in ← lift modes do
      require (e.outputs.contains m) (.noOutputs m.text)
      writeQueries e (← lift db) m

end Run

end BeliefLogic
