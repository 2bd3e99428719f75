import BeliefLogic.Workbench.Containers

/-!
# Arguments of commands

A command reads its arguments as what it needs. A view is read as what it shows when the command is
performed.
-/

namespace BeliefLogic.Workbench

open Run

variable {α : Type}

class OfValue (α β : Type) where
  ofValue : Value α → Work α β

export OfValue (ofValue)

instance : OfValue α (Value α) := ⟨pure⟩

instance : OfValue α (Matrix α) where
  ofValue
    | .matrix m => pure m
    | _ => mismatch

instance [Scalar α] : OfValue α (Operand α) := ⟨fun v => pure v.operand⟩

instance : OfValue α String where
  ofValue
    | .text s => pure s
    | _ => mismatch

instance : OfValue α Mode where
  ofValue
    | .mode m => pure m
    | .text s => lift (Mode.parse s)
    | _ => mismatch

def declaredMode [Scalar α] : Value α → Work α Mode
  | .mode m => pure m
  | .goal t => pure ⟨t.goal⟩
  | _ => missing

instance : OfValue α Int where
  ofValue
    | .integer n => pure n
    | .truth b => pure (if b then 1 else 0)
    | _ => mismatch

instance : OfValue α Nat where
  ofValue v := return (← (ofValue v : Work α Int)).toNat

instance : OfValue α Elementwise where
  ofValue
    | .elementwise f => pure f
    | _ => mismatch

instance [Scalar α] : OfValue α Goal where
  ofValue
    | .goal t => pure t.goal
    | .mode m => pure m.goal
    | _ => mismatch

instance {β : Type} [OfValue α β] : OfValue α (Option β) where
  ofValue
    | .nothing => pure none
    | v => return some (← ofValue v)

instance {β : Type} [OfValue α β] : OfValue α (List β) where
  ofValue
    | .list items => items.mapM ofValue
    | .tuple items => items.mapM ofValue
    | _ => mismatch

instance {β γ : Type} [OfValue α β] [OfValue α γ] : OfValue α (β × γ) where
  ofValue
    | .tuple [a, b] => return (← ofValue a, ← ofValue b)
    | .list [a, b] => return (← ofValue a, ← ofValue b)
    | _ => mismatch

instance [Scalar α] : OfValue α Bool := ⟨fun v => pure v.isTrue⟩

instance [Scalar α] : OfValue α (Amount α) := ⟨fun v => pure v.amount⟩

def positionOf : Value α → Work α Int
  | .integer n => pure n
  | .truth b => pure (if b then 1 else 0)
  | .number _ | .text _ => throw .outOfRange
  | _ => mismatch

def numberOf [Scalar α] : Value α → Work α α
  | .integer n => pure (Scalar.ofInt n)
  | .number x => pure x
  | .truth b => pure (if b then 1 else 0)
  | _ => mismatch

def itemsOf (v : Value α) : Work α (List (Value α)) := do lift (← settle v).items

/-- The arguments of a command line. A text counts as an empty line. -/
def argumentLine [Scalar α] : Value α → Work α (List (Datum α))
  | .list items | .tuple items => return items.map (·.datum)
  | .text _ => pure []
  | v => do
    if !v.isTrue then return []
    match v with
    | .dictionary _ => throw .notFound
    | _ => mismatch

/-- Lines given one by one, up to something else. -/
structure GivenLines where
  texts : List String
  isBroken : Bool
  deriving DecidableEq, Repr

namespace GivenLines

def ofValues (items : List (Value α)) : GivenLines :=
  let texts := items.map fun
    | .text s => some s
    | _ => none
  ⟨(texts.takeWhile Option.isSome).filterMap id, texts.any Option.isNone⟩

def finish (lines : GivenLines) : Work α Unit :=
  if lines.isBroken then missing else pure ()

end GivenLines

def givenLines? [Scalar α] (v : Value α) : Work α (Option GivenLines) := do
  match v with
  | .matrix m => return some ⟨[], m.height != 0⟩
  | .dense d => return some ⟨[], !d.rows.isEmpty⟩
  | .row xs => return some ⟨[], !xs.isEmpty⟩
  | .thing id =>
    let b : Bench α ← state
    match b.things[id]? with
    | some (.theory ..) => return some ⟨[], (b.theoryAt id).size != 0⟩
    | _ => return none
  | v => return v.items.toOption.map .ofValues

def linesOf [Scalar α] (v : Value α) : Work α GivenLines := do
  match v with
  | .text path => return ⟨← fileLines path, false⟩
  | v =>
    match ← givenLines? v with
    | some lines => return lines
    | none => refuse (.noLines v.shown)

instance [Scalar α] : OfValue α (Datum α) := ⟨fun v => pure v.datum⟩

abbrev Args (α : Type) := List (Option (Value α))

namespace Args

def given (args : Args α) (i : Nat) : Work α (Value α) :=
  match args[i]? with
  | some (some v) => pure v
  | _ => mismatch

def value (args : Args α) (i : Nat) : Work α (Value α) := do settle (← args.given i)

def get {β : Type} [OfValue α β] (args : Args α) (i : Nat) : Work α β := do
  ofValue (← args.value i)

def getD {β : Type} [OfValue α β] (args : Args α) (i : Nat) (default : β) : Work α β := do
  match args[i]? with
  | some (some v) => ofValue (← settle v)
  | _ => pure default

def valueD (args : Args α) (i : Nat) (default : Value α) : Work α (Value α) := args.getD i default

def atMost (args : Args α) (n : Nat) : Work α Unit :=
  if args.length ≤ n then pure () else mismatch

def predicate? [Scalar α] (args : Args α) (i : Nat) : Work α (Option Predicate) := do
  let functor ← args.value i
  let arity ← args.value (i + 1)
  match functor, arity.whole? with
  | .text functor, some arity => return some ⟨functor, arity⟩
  | _, _ => if functor.isKey && arity.isKey then return none else mismatch

def mark [Scalar α] (args : Args α) (i : Nat) : Work α (Mark α) := do
  let functor ← args.value i
  let arity ← args.value (i + 1)
  if functor.isKey && arity.isKey then return ⟨functor.datum, arity.datum⟩ else mismatch

/-- A relation by name and arity; a name may be what is printed. -/
def predicate [Scalar α] (args : Args α) (i : Nat) : Work α Predicate := do
  match ← args.predicate? i with
  | some p => return p
  | none =>
    let functor ← args.value i
    match (← args.value (i + 1)).whole? with
    | some arity => return ⟨functor.printed (← settings).dialect, arity⟩
    | none => mismatch

/-- A relation known by name and arity. -/
def knownPredicate [Scalar α] (args : Args α) (i : Nat) : Work α Predicate := do
  match ← args.predicate? i with
  | some p => return p
  | none => throw .notFound

/-- A parameter. What is marked without being a relation has no matrix. -/
def paramName [Scalar α] (args : Args α) (i : Nat) (db : Database α) : Work α Predicate := do
  match ← args.predicate? i with
  | some p => return p
  | none =>
    let m ← args.mark i
    if db.isMarked m then
      let _ ← lift m.relation
    let functor ← args.value i
    match (← args.value (i + 1)).truncated? with
    | some arity =>
      refuse (.notParameter (functor.printed (← settings).dialect) arity)
    | none => mismatch

def typeName [Scalar α] (args : Args α) (i : Nat) (s : Schema) : Work α (Option String) := do
  match s, ← args.valueD i .nothing with
  | _, .nothing => return none
  | _, .text type => return some type
  | .untyped _, v => return some (v.printed (← settings).dialect)
  | .typed _, v => if v.isKey then throw (.noEntry v.shown) else mismatch

end Args

/-- The text of a value in a message: a tuple of one item is the item. -/
def inserted (text : Value α → String) (v : Value α) : Work α String := do
  match ← settle v with
  | .tuple [v] => return text v
  | .tuple _ => mismatch
  | v => return text v

def entityOf [Scalar α] : Value α → Work α (Except String String)
  | .text s => return .ok s
  | v => do if v.isKey then return .error (v.printed (← settings).dialect) else mismatch

def namedRow [Scalar α] (db : Database α) (type : Option String) :
    Except String String → Except Error (Matrix α)
  | .ok entity => db.oneHot entity type
  | .error text => do
    let type ← db.resolve type
    let _ ← db.schema.table (some type)
    throw (.refused (.unknownConstant text type))

def entityRow [Scalar α] (db : Database α) (type : Option String) (v : Value α) :
    Work α (Matrix α) := do
  lift (namedRow db type (← entityOf v))

end BeliefLogic.Workbench
