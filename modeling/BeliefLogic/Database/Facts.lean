import BeliefLogic.Database.Basic

/-!
# Reading facts

A line states a weighted fact, or after `#` and `:-` declares types or a trainable relation. What it
means depends on the types known so far.
-/

namespace BeliefLogic

open Text

/-- What a line says. -/
inductive FactLine (α : Type) where
  | nothing
  | trainable (p : Predicate)
  | signature (s : Signature)
  | unary (functor entity : String) (weight : α)
  /-- A fact of one argument, whose third field was taken for a weight. -/
  | guessed (functor entity written : String) (weight : α)
  | binary (functor first second : String) (weight : α)
  | illegal (line : String)

namespace FactLine

variable {α : Type} [Scalar α]

def declaration? (cs : List Char) : Option String :=
  match cs with
  | [] => none
  | c :: rest =>
    match dropLeading? [':', '-'] (c :: rest) with
    | some after => some (strip (String.ofList after))
    | none => declaration? rest

/-- `trainable(p,1)` and `trainable(p,2)` mark a parameter, all else gives types. -/
def ofSignature (s : Signature) : FactLine α :=
  match s.goal.functor, s.goal.args with
  | "trainable", [functor, "1"] => .trainable ⟨functor, 1⟩
  | "trainable", [functor, "2"] => .trainable ⟨functor, 2⟩
  | _, _ => .signature s

def weight? (s : String) : Option α := (readLiteral? s).map Scalar.ofLiteral

def isDeclared (type : Option String) : Bool := type.any (· != "")

def ofTypedTriple (schema : Schema) (file : String) (number : Nat) (functor a b : String) :
    Except Error (FactLine α) :=
  let one := isDeclared (schema.domain ⟨functor, 1⟩)
  let two := isDeclared (schema.domain ⟨functor, 2⟩)
  let w : Option α := weight? b
  if two && !one then .ok (.binary functor a b 1)
  else if one && !two then
    match w with
    | some w =>
      if (0 : α) ≤ w then .ok (.unary functor a w)
      else .error (.refused (.badWeight number file b))
    | none => .error (.refused (.badWeight number file b))
  else match w with
    | some w => if (0 : α) < w then .ok (.guessed functor a b w) else .ok (.binary functor a b 1)
    | none => .ok (.binary functor a b 1)

/-- What a line says under the settings and the schema so far. -/
def classify (settings : Settings α) (schema : Schema) (file : String) (number : Nat)
    (line : String) : Except Error (FactLine α) :=
  let line := strip line
  if line.isEmpty then .ok .nothing
  else if startsWith "#" line then
    match declaration? line.toList with
    | none => .ok .nothing
    | some s => do return ofSignature (← Signature.parse s)
  else
    match fields '\t' line with
    | [functor, a, b, written] =>
      match weight? written with
      | some w => if w < (0 : α) then .error .illTyped else .ok (.binary functor a b w)
      | none => .error .illTyped
    | [functor, a] => .ok (.unary functor a 1)
    | [functor, a, b] =>
      if schema.isTypeless then
        match weight? b with
        | some w => if settings.weightedTuples then .ok (.unary functor a w)
          else .ok (.binary functor a b 1)
        | none => .ok (.binary functor a b 1)
      else ofTypedTriple schema file number functor a b
    | _ => .ok (.illegal line)

end FactLine

namespace Run

variable {α : Type} [Scalar α]

def onSchema {β : Type} (act : Run α Schema β) : Run α (Database α) β :=
  focus Database.schema (fun s db => { db with schema := s }) act

def internEntity (type : String) (entity : String) : Run α (Database α) Nat := do
  let (n, s) ← lift ((← state).schema.intern (some type) entity)
  update fun db => { db with schema := s }
  return n

def changePending (p : Predicate) (f : Pending α → Pending α) : Run α (Database α) Unit :=
  update fun db => { db with pending := db.pending.change p {} f }

/-- Keeps a fact until its matrix is made, and reports missing types. -/
def keepFact (file : String) (number : Nat) (p : Predicate) (first : String)
    (second : Option String) (weight : α) : Run α (Database α) Unit := do
  let db ← state
  if db.relations.contains p then fail .alreadyComplete
  match db.schema.domain p, db.schema.range p, second with
  | some type, _, none =>
    let n ← internEntity type first
    changePending p fun q =>
      { weights := weight :: q.weights, rows := 0 :: q.rows, columns := n :: q.columns }
  | some type, some type', some second =>
    let n ← internEntity type first
    let m ← internEntity type' second
    changePending p fun q =>
      { weights := weight :: q.weights, rows := n :: q.rows, columns := m :: q.columns }
  | _, _, _ =>
    complain ("line " ++ natural number ++ " of " ++ file ++ ": undeclared relation " ++ p.text)

/-- Declares types; an untyped schema gives way to a typed one. -/
def declareSignature (file : String) (number : Nat) (s : Signature) : Run α (Database α) Unit := do
  if !(← settings).ignoreTypes then
    let schema := (← state).schema
    if schema.isTypeless then
      if !schema.isUntouched then
        complain ("discarding non-empty typeless schema to accomodate declaration: " ++ file ++
          " line " ++ natural number)
      update fun db => { db with schema := .emptyTyped }
    onSchema (declareTypes s.goal.functor s.goal.args)

def addFactLine (file : String) (number : Nat) (line : String) : Run α (Database α) Unit := do
  match ← lift (FactLine.classify (← settings) (← state).schema file number line) with
  | .nothing => pure ()
  | .trainable p => update fun db => db.markParam p
  | .signature s => declareSignature file number s
  | .unary functor a w => keepFact file number ⟨functor, 1⟩ a none w
  | .guessed functor a written w =>
    warn ("line " ++ natural number ++ " file " ++ file ++ ": assuming " ++ written ++
      " is a weight")
    keepFact file number ⟨functor, 1⟩ a none w
  | .binary functor a b w => keepFact file number ⟨functor, 2⟩ a (some b) w
  | .illegal line =>
    complain ("line " ++ natural number ++ " file " ++ file ++ ": illegal line " ++
      quoted line)

def dropPending : Run α (Database α) Unit := update fun db => { db with pending := {} }

def relationShape (s : Schema) (p : Predicate) : Except Error (Nat × Nat) := do
  if p.arity = 2 then
    let height ← s.count (s.domain p)
    let width ← s.count (s.range p)
    return (height + 1, width + 1)
  else
    let width ← s.count (s.domain p)
    return (1, width + 1)

def completeRelation (p : Predicate) (q : Pending α) : Run α (Database α) Unit := do
  let (height, width) ← lift (relationShape (← state).schema p)
  let entries := q.rows.reverse.zip (q.columns.reverse.zip q.weights.reverse)
  let m ← lift (Matrix.ofWeights height width entries)
  update (·.putRelation p m)

def completeFacts : Run α (Database α) Unit := do
  for (p, q) in (← state).pending.entries do
    completeRelation p q
  dropPending

def keepFacts (label : String) (lines : List String) : Run α (Database α) Unit := do
  for (line, k) in lines.zipIdx do
    addFactLine label (k + 1) line

def keepFactFile (path : String) : Run α (Database α) Unit := do
  keepFacts path (← fileLines path)

/-- Keeps the facts of lines, and nothing that was kept before. -/
def startFacts (lines : List String) : Run α (Database α) Unit := do
  dropPending
  for line in lines do
    addFactLine "<no file>" 0 line

def addFacts (lines : List String) : Run α (Database α) Unit := do
  startFacts lines
  completeFacts

/-- Adds the facts in files, whose names are separated by colons. -/
def addFactFiles (paths : String) : Run α (Database α) Unit := do
  for path in fields ':' paths do
    keepFactFile path
  completeFacts

/-- A database of the facts in files, whose names are separated by colons. -/
def loadFacts {σ : Type} (paths : String) (schema : Schema) : Run α σ (Database α) := do
  return (← within (Database.ofSchema schema) (addFactFiles paths)).2

end Run

end BeliefLogic
