import BeliefLogic.Rule.Reader
import BeliefLogic.Symbols

/-!
# Schemas

A schema numbers the entities of a database: in one table, or in one for each type.
-/

namespace BeliefLogic

open Text

/-- A relation: its name and arity. -/
structure Predicate where
  functor : String
  /-- The number of arguments, negative only in a written schema. -/
  arity : Int
  deriving DecidableEq, Repr, Inhabited

namespace Predicate

def text (p : Predicate) : String := p.functor ++ "/" ++ Text.integer p.arity

def precedes (p q : Predicate) : Bool :=
  decide (p.functor < q.functor) || (p.functor == q.functor && decide (p.arity ≤ q.arity))

end Predicate

def Mode.predicate (m : Mode) : Predicate := ⟨m.functor, m.arity⟩

def thing : String := "__THING__"

/-- Types of arguments and tables of entities. -/
structure Typing where
  first : Dictionary Predicate String := {}
  second : Dictionary Predicate String := {}
  tables : Dictionary String Symbols := {}
  declarations : List String := []
  deriving Inhabited

/-- One table of entities, or one for each type. -/
inductive Schema where
  | untyped (entities : Symbols)
  | typed (typing : Typing)
  deriving Inhabited

namespace Typing

def position (t : Typing) : Int → Except Error (Dictionary Predicate String)
  | 0 => .ok t.first
  | 1 => .ok t.second
  | _ => .error .notFound

def argType (t : Typing) (p : Predicate) (i : Int) : Except Error (Option String) := do
  return (← t.position i).get? p

def ensureType (t : Typing) (type : String) : Typing :=
  if t.tables.contains type then t
  else { t with tables := t.tables.put type .entities }

/-- Declares the type of one argument, as it may be already. -/
def declareArg (t : Typing) (p : Predicate) (i : Int) (type : String) : Except Error Typing := do
  match (← t.position i).get? p with
  | some known =>
    if known ≠ type then
      throw (.refused (.conflictingTypes p.functor p.arity i type known))
  | none => pure ()
  let t := if i = 0 then { t with first := t.first.put p type }
    else { t with second := t.second.put p type }
  return t.ensureType type

end Typing

namespace Schema

def emptyUntyped : Schema := .untyped .entities

def emptyTyped : Schema := .typed {}

def isTypeless : Schema → Bool
  | .untyped _ => true
  | .typed _ => false

def isUntouched : Schema → Bool
  | .untyped s => s.size ≤ 2
  | .typed _ => false

def defaultType : Schema → Except Error String
  | .untyped _ => .ok thing
  | .typed _ => .error (.refused .noDefaultType)

def types : Schema → List String
  | .untyped _ => [thing]
  | .typed t => t.tables.keys

def argType (s : Schema) (p : Predicate) (i : Int) : Except Error (Option String) :=
  match s with
  | .untyped _ => .ok (some thing)
  | .typed t => t.argType p i

def domain (s : Schema) (p : Predicate) : Option String :=
  match s with
  | .untyped _ => some thing
  | .typed t => t.first.get? p

def range (s : Schema) (p : Predicate) : Option String :=
  match s with
  | .untyped _ => some thing
  | .typed t => t.second.get? p

def table (s : Schema) (type : Option String) : Except Error Symbols :=
  match s with
  | .untyped entities => .ok entities
  | .typed t =>
    match type.bind t.tables.get? with
    | some symbols => .ok symbols
    | none => .error (.noEntry ((type.map quoted).getD "None"))

def setTable (s : Schema) (type : Option String) (symbols : Symbols) : Schema :=
  match s, type with
  | .untyped _, _ => .untyped symbols
  | .typed t, some type => .typed { t with tables := t.tables.put type symbols }
  | .typed t, none => .typed t

def count (s : Schema) (type : Option String) : Except Error Nat :=
  return (← s.table type).size

def has (s : Schema) (type : Option String) (symbol : String) : Except Error Bool :=
  return (← s.table type).has symbol

def intern (s : Schema) (type : Option String) (symbol : String) : Except Error (Nat × Schema) := do
  let (n, symbols) := (← s.table type).intern symbol
  return (n, s.setTable type symbols)

def name (s : Schema) (type : Option String) (k : Int) : Except Error (Option String) := do
  (← s.table type).name k

def insertType (s : Schema) (type : String) : Except Error Schema :=
  match s with
  | .untyped _ => .error (.refused .typeInUntyped)
  | .typed t => .ok (.typed { t with tables := t.tables.put type .entities })

def summary : Schema → Option String
  | .untyped _ => none
  | .typed t =>
    some ("DB Schema with " ++ natural t.declarations.length ++ " declarations: " ++
      " & ".intercalate t.declarations)

def tableText (symbols : Symbols) : String :=
  String.join (symbols.toList.map (· ++ "\n"))

def positionText (i : String) (d : Dictionary Predicate String) : String :=
  String.join (d.entries.map fun (p, type) =>
    "\t".intercalate [i, p.functor, Text.integer p.arity, type] ++ "\n")

def text : Schema → String
  | .untyped symbols => tableText symbols
  | .typed t =>
    String.join (t.declarations.map (· ++ "\n")) ++
      positionText "0" t.first ++ positionText "1" t.second ++
      String.join (t.tables.entries.map fun (type, symbols) =>
        "\n" ++ type ++ "\n" ++ tableText symbols)

def addInStep (refusal : String → Nat → Nat → Error) (type : Option String) :
    Schema → Nat → List String → Except Error Schema
  | s, _, [] => .ok s
  | s, k, line :: rest => do
    let symbol := strip line
    let (n, s) ← s.intern type symbol
    if n ≠ k then throw (refusal symbol n k)
    addInStep refusal type s (k + 1) rest

def readUntyped (lines : List String) : Except Error Schema :=
  addInStep (fun symbol n k => .refused (.outOfStep symbol n k)) none emptyUntyped 1 lines

inductive Place where
  | declarations
  | betweenTypes
  | inside (type : String) (next : Nat)

/-- Reads a declaration, or a position, name, arity and type. -/
def readDeclaration (t : Typing) (line : String) : Except Error Typing :=
  match fields '\t' line with
  | [declaration] => .ok { t with declarations := t.declarations ++ [declaration] }
  | [i, functor, arity, type] =>
    match readInteger? arity with
    | none => .error .malformed
    | some arity =>
      match readInteger? i with
      | none => .error .malformed
      | some i => t.declareArg ⟨functor, arity⟩ i type
  | _ => .error .malformed

def readTypedLine : Typing × Place → String → Except Error (Typing × Place)
  | (t, place), line => do
    let line := strip line
    match place with
    | .declarations =>
      if line.isEmpty then return (t, .betweenTypes)
      else return (← readDeclaration t line, .declarations)
    | .betweenTypes =>
      if line.isEmpty then return (t, .betweenTypes)
      else return ({ t with tables := t.tables.put line .entities }, .inside line 1)
    | .inside type next =>
      if line.isEmpty then return (t, .betweenTypes)
      else
        let (n, symbols) := ((t.tables.get? type).getD .entities).intern line
        if n ≠ next then throw .illTyped
        return ({ t with tables := t.tables.put type symbols }, .inside type (next + 1))

def readTyped (lines : List String) : Except Error Schema := do
  let (t, _) ← lines.foldlM readTypedLine (({} : Typing), Place.declarations)
  return .typed t

end Schema

namespace Run

variable {α : Type}

def modifyChecked {α σ : Type} (f : σ → Except Error σ) : Run α σ Unit := do
  setState (← lift (f (← state)))

def declareTypes (functor : String) (types : List String) : Run α Schema Unit := do
  match ← state with
  | .untyped _ => refuse .declaredInUntyped
  | .typed t =>
    setState (.typed { t with
      declarations := t.declarations ++ [functor ++ "(" ++ ",".intercalate types ++ ")"] })
    for (type, i) in types.zipIdx do
      modifyChecked fun
        | .untyped s => .ok (.untyped s)
        | .typed t => return .typed (← t.declareArg ⟨functor, types.length⟩ i type)

/-- Warns of relations without declared types; if strict, refuses them. -/
def checkTyping {σ : Type} (s : Schema) (predicates : List Predicate) (strict : Bool) :
    Run α σ Unit := do
  match s with
  | .untyped _ => pure ()
  | .typed t =>
    for p in predicates do
      for i in List.range p.arity.toNat do
        let known := match t.argType p i with
          | .ok (some _) => true
          | _ => false
        if !known then
          warn ("matrixDB relation " ++ p.text ++ " has no type declared for argument " ++
            natural (i + 1))
          if strict then refuse .untypedArgument

/-- Adds the symbols of a file, each with the number of its line. -/
def addSymbolFile (type : Option String) (path : String) : Run α Schema Unit := do
  for (line, k) in (← fileLines path).zipIdx do
    let (n, s) ← lift ((← state).intern type (strip line))
    setState s
    if n ≠ k + 1 then fail .illTyped

def schemaPath (s : Schema) (directory : String) : String :=
  Files.join directory (if s.isTypeless then "symbols.txt" else "typed-symbols.txt")

def saveSchema {σ : Type} (s : Schema) (directory : String) : Run α σ Unit :=
  putText (schemaPath s directory) s.text

def loadSchema {σ : Type} (directory : String) : Run α σ Schema := do
  let path := Files.join directory "symbols.txt"
  if (← files).isFile path then
    lift (Schema.readUntyped (← fileLines path))
  else
    lift (Schema.readTyped (← fileLines (Files.join directory "typed-symbols.txt")))

end Run

end BeliefLogic
