import BeliefLogic.Operand
import BeliefLogic.Schema

/-!
# Databases

A relation of two arguments is a matrix over numbered entities, one of a single argument is a row.
Parameters are relations whose weights are learned.
-/

namespace BeliefLogic

open Text

/-- Facts kept until their matrix is made. -/
structure Pending (α : Type) where
  weights : List α := []
  /-- The first entities, last first; 0 for a relation of one argument. -/
  rows : List Nat := []
  columns : List Nat := []
  deriving Repr, Inhabited

/-- The mark of a parameter, as given: a name and an arity. -/
structure Mark (α : Type) where
  functor : Datum α
  arity : Datum α
  deriving Inhabited

namespace Mark

variable {α : Type} [Scalar α]

def ofPredicate (p : Predicate) : Mark α := ⟨.text p.functor, .integer p.arity⟩

def relation? (m : Mark α) : Option Predicate :=
  match m.functor, m.arity.whole? with
  | .text functor, some arity => some ⟨functor, arity⟩
  | _, _ => none

def relation (m : Mark α) : Except Error Predicate :=
  match m.relation? with
  | some p => .ok p
  | none => .error (.noEntry (parenthesized [m.functor.shown, m.arity.shown]))

def agrees (m n : Mark α) : Bool := m.functor.agrees n.functor && m.arity.agrees n.arity

def text (m : Mark α) : String := m.functor.printed ++ "/" ++ m.arity.printed

end Mark

/-- A schema, matrices, and facts that are kept. -/
structure Database (α : Type) where
  schema : Schema
  /-- The matrix of each relation, or what was put in its place. -/
  relations : Dictionary Predicate (Operand α) := {}
  params : List (Mark α) := []
  /-- The marks of all parameters, also of those taken off the list. -/
  marks : List (Mark α) := []
  pending : Dictionary Predicate (Pending α) := {}

namespace Database

variable {α : Type}

instance : Inhabited (Database α) := ⟨{ schema := .emptyUntyped }⟩

def ofSchema (s : Schema) : Database α := { schema := s }

def initialSchema (settings : Settings α) : Schema :=
  if settings.typedByDefault && !settings.ignoreTypes then .emptyTyped else .emptyUntyped

def isTypeless (db : Database α) : Bool := db.schema.isTypeless

def resolve (db : Database α) : Option String → Except Error String
  | some type => .ok type
  | none => db.schema.defaultType

/-- The length of row vectors over a type: the number 0 is not used. -/
def dim (db : Database α) (type : Option String) : Except Error Nat := do
  return (← db.schema.count (some (← db.resolve type))) + 1

def relation? (db : Database α) (p : Predicate) : Option (Matrix α) :=
  (db.relations.get? p).bind Operand.matrix?

def putRelation (db : Database α) (p : Predicate) (m : Matrix α) : Database α :=
  { db with relations := db.relations.put p (.matrix m) }

def relationCount (db : Database α) : Nat := db.relations.size

def size (db : Database α) : Except Error Nat :=
  return tally (← db.relations.values.mapM Operand.stored)

def sorted (db : Database α) : List Predicate :=
  db.relations.keys.mergeSort fun p q => p.precedes q

def clearParams (db : Database α) : Database α := { db with params := [], marks := [] }

section Params

variable [Scalar α]

def isMarked (db : Database α) (m : Mark α) : Bool := db.marks.any m.agrees

def isParam (db : Database α) (p : Predicate) : Bool := db.isMarked (.ofPredicate p)

def mark (db : Database α) (m : Mark α) : Database α :=
  if db.isMarked m then db else { db with params := db.params ++ [m], marks := db.marks ++ [m] }

def markParam (db : Database α) (p : Predicate) : Database α := db.mark (.ofPredicate p)

def paramOperand (db : Database α) (p : Predicate) : Except Error (Operand α) :=
  if db.isParam p then
    match db.relations.get? p with
    | some x => .ok x
    | none => .error (.noRow p.functor p.arity)
  else .error (.refused (.notParameter p.functor p.arity))

def param (db : Database α) (p : Predicate) : Except Error (Matrix α) := do
  (← db.paramOperand p).toMatrix "data"

def putParam (db : Database α) (p : Predicate) (x : Operand α) : Except Error (Database α) :=
  if db.isParam p then .ok { db with relations := db.relations.put p x }
  else .error (.refused (.notParameter p.functor p.arity))

def paramSize (db : Database α) : Except Error Nat :=
  return tally (← (db.relations.entries.filter fun (p, _) => db.isParam p).mapM fun (_, x) => x.stored)

end Params

def threeColumns (n : Nat) : String :=
  let t := natural n
  String.ofList (List.replicate (3 - t.length) ' ') ++ t

def shapeText (m : Matrix α) : String :=
  threeColumns m.height ++ " x " ++ threeColumns m.width ++ " [" ++ natural m.stored ++ " nz]"

/-- Shape and number of stored entries. -/
def operandText [Scalar α] : Operand α → Except Error String
  | .datum .nothing => .ok "___"
  | x => do return shapeText (← x.rows)

def summary [Scalar α] (db : Database α) (p : Predicate) : Except Error String :=
  match db.relations.get? p with
  | some x => do return "in DB: " ++ (← operandText x)
  | none => .error .notFound

/-- Whether a mode uses the transpose of the matrix of its relation. -/
def isTransposed (mode : Mode) (transpose : Bool) : Except Error Bool :=
  match mode.args with
  | [] => .error .outOfRange
  | ["i"] => .error .outOfRange
  | _ => .ok ((mode.isInput 0 && mode.isOutput 1) == transpose)

variable [Scalar α]

def oneHot (db : Database α) (symbol : String) (type : Option String) : Except Error (Matrix α) := do
  let type ← db.resolve type
  match (← db.schema.table (some type)).id? symbol with
  | some n => Matrix.unit (← db.dim (some type)) n
  | none => throw (.refused (.unknownConstant symbol type))

/-- The row of an entity, if need be of the unknown one. -/
def oneHotOrUnknown (db : Database α) (symbol : String) (type : Option String) :
    Except Error (Matrix α) := do
  let type ← db.resolve type
  if ← db.schema.has (some type) symbol then db.oneHot symbol (some type)
  else db.oneHot Symbols.unknown (some type)

def zeros (db : Database α) (height : Nat) (type : Option String) : Except Error (Matrix α) := do
  return Matrix.empty height (← db.dim type)

def ones (db : Database α) (type : Option String) : Except Error (Matrix α) := do
  let n ← db.dim type
  return ⟨n, #[(List.range n).map fun j => (j, 1)]⟩

def nullRows (height width : Nat) : Except Error (Matrix α) :=
  if height = 0 then .ok (Matrix.empty 0 width)
  else if 1 < width then .ok ⟨width, Array.replicate height [(1, 1)]⟩
  else .error .malformed

/-- What carries rows over the inputs of a mode to rows over its outputs. -/
def operand (db : Database α) (mode : Mode) (transpose : Bool) : Except Error (Operand α) :=
  if mode.arity ≠ 2 then .error (.refused (.notBinary mode.text mode.arity))
  else match db.relations.get? mode.predicate with
    | none => .error (.refused (.noMatrix mode.text))
    | some x => do if ← isTransposed mode transpose then x.transpose else return x

/-- The matrix that carries rows from the inputs of a mode to its outputs. -/
def matrix (db : Database α) (mode : Mode) (transpose : Bool) : Except Error (Matrix α) := do
  (← db.operand mode transpose).toMatrix "shape"

def rowOperand (db : Database α) (mode : Mode) : Except Error (Operand α) :=
  if mode.arity ≠ 1 then .error (.refused (.notUnary mode.text))
  else match db.relations.get? mode.predicate with
    | none => .error (.noRow mode.functor mode.arity)
    | some x => .ok x

def vector (db : Database α) (mode : Mode) : Except Error (Matrix α) := do
  (← db.rowOperand mode).toMatrix "data"

def preimageType (db : Database α) (mode : Mode) : Except Error (Option String) := do
  let p : Predicate := ⟨mode.functor, 2⟩
  return if ← isTransposed mode true then db.schema.range p else db.schema.domain p

/-- The row of ones whose product gives the preimage of a mode. -/
def preimageOnes (db : Database α) (mode : Mode) : Except Error (Matrix α) :=
  do db.ones (← db.preimageType mode)

def preimage (db : Database α) (mode : Mode) : Except Error (Matrix α) := do
  let ones ← db.preimageOnes mode
  (← db.operand mode true).carry ones

def symbolId (db : Database α) (symbol : String) (type : Option String) : Except Error Int := do
  match (← db.schema.table (some (← db.resolve type))).id? symbol with
  | some n => return n
  | none => return -1

/-- The stored weights of a row by symbol; the column 0 has no symbol. -/
def rowSymbols (db : Database α) (r : Row α) (type : Option String) :
    Except Error (Dictionary (Option String) α) :=
  let type := type.getD thing
  r.foldlM (fun d (j, x) => return d.put (← db.schema.name (some type) j) x) {}

def matrixRowSymbols (db : Database α) (m : Matrix α) (type : Option String) :
    Except Error (Dictionary (Option String) α) := do
  let type := type.getD thing
  let (d, _) ← m.entries.foldlM (fun (d, k) (i, j, x) => do
    if i ≠ 0 then throw (.refused (.notFirstRow "coorow.row" k))
    return (d.put (← db.schema.name (some type) j) x, k + 1))
    (({} : Dictionary (Option String) α), 0)
  return d

def matrixSymbols (db : Database α) (m : Matrix α) (type : Option String) :
    Except Error (List (Dictionary (Option String) α)) :=
  m.rows.toList.mapM fun r => db.rowSymbols r type

def weightsText (d : Dictionary (Option String) α) : String :=
  "\x7b" ++ ", ".intercalate (d.entries.map fun (name, x) =>
    (match name with
      | some s => quoted s
      | none => "None") ++ ": " ++ shortest (Scalar.toFloat x)) ++ "\x7d"

def rowsText (rows : List (Dictionary (Option String) α)) : String :=
  "\x7b" ++ ", ".intercalate (rows.zipIdx.map fun (d, i) =>
    natural i ++ ": " ++ weightsText d) ++ "\x7d"

end Database

end BeliefLogic
