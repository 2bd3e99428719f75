import BeliefLogic.Formula.Basic
import BeliefLogic.Program.Query

/-!
# Deriving formulas

The formula of a query is derived from its plan. What was derived is kept, also after a failure.
-/

namespace BeliefLogic

/-- A named value of the database. -/
structure Handle (α : Type) where
  /-- The relation; constants and other fixed rows have arity zero. -/
  key : Predicate
  name : String
  value : Matrix α
  broadcast : Bool
  deriving Inhabited

structure Derived where
  inputs : List Formula
  formula : Formula
  type : Option String
  deriving Repr, Inhabited

structure Loss where
  inputs : List String
  loss : String
  /-- The gradients by the parameters that have names, in order. -/
  gradients : List String
  deriving Repr, Inhabited

/-- The formulas of a query. -/
structure Draft where
  plan : Option Plan := none
  proofCount : Option Derived := none
  inference : Option Derived := none
  loss : Option Loss := none
  deriving Inhabited

/-- All that was derived. -/
structure Formulary (α : Type) where
  nextSpace : Nat := 0
  drafts : Dictionary Mode Draft := {}
  current : Option Mode := none
  handles : List (Handle α) := []
  onlyType : Option String := none
  prepared : Bool := false
  deriving Inhabited

namespace Formulary

variable {α : Type}

def handle? (f : Formulary α) (key : Predicate) : Option (Handle α) :=
  f.handles.find? (·.key = key)

def draft (f : Formulary α) (mode : Mode) : Draft := (f.drafts.get? mode).getD {}

def currentPlan (f : Formulary α) : Except Error Plan :=
  match f.current.bind fun mode => (f.draft mode).plan with
  | some plan => .ok plan
  | none => .error .missingPart

/-- The type of a plan's output, of which an untyped database has one. -/
def outputType (f : Formulary α) (p : Plan) : Option String := f.onlyType.or p.outputType

def inputTypes (f : Formulary α) (p : Plan) : Except Error (List (Option String)) :=
  match p.inputTypes with
  | none => .error .illTyped
  | some types => .ok (if f.onlyType.isSome then types.map fun _ => f.onlyType else types)

end Formulary

structure NameSpace where
  id : Nat
  formulas : Dictionary String Formula := {}

namespace NameSpace

def internalName (s : NameSpace) (x : String) : String := "n" ++ Text.natural s.id ++ "__" ++ x

def get (s : NameSpace) (x : String) : Except Error Formula :=
  match s.formulas.get? x with
  | some e => .ok e
  | none => .error .notFound

def bind (s : NameSpace) (x : String) (e : Formula) : NameSpace :=
  { s with formulas := s.formulas.put x e }

end NameSpace

namespace Run

variable {α : Type} [Scalar α]

abbrev Deriving (α : Type) := Run α (Model α × Formulary α)

def withModel {β : Type} (act : Modelling α β) : Deriving α β :=
  focus (·.1) (fun m s => (m, s.2)) act

def formulary : Deriving α (Formulary α) := return (← state).2

def updateFormulary (f : Formulary α → Formulary α) : Deriving α Unit :=
  update fun (m, x) => (m, f x)

def updateDraft (mode : Mode) (f : Draft → Draft) : Deriving α Unit :=
  updateFormulary fun x => { x with drafts := x.drafts.put mode (f (x.draft mode)) }

def nameMatrix (key : Predicate) (name : String) (broadcast : Bool)
    (value : Deriving α (Matrix α)) : Deriving α Formula := do
  match (← formulary).handle? key with
  | some h => return .handle key h.name
  | none =>
    let value ← value
    updateFormulary fun x => { x with handles := x.handles ++ [{ key, name, value, broadcast }] }
    return .handle key name

def nameRow (name : String) (row : Except Error (Matrix α)) : Deriving α Formula := do
  let row ← lift row
  nameMatrix ⟨name, 0⟩ name true (pure row)

def nameVector (mode : Mode) : Deriving α Formula := do
  require (mode.arity = 1) .unstated
  let db ← withModel database
  nameMatrix ⟨mode.functor, 1⟩ ("v__" ++ mode.functor) true do
    require (db.relations.contains ⟨mode.functor, 1⟩) (.noValue mode.text)
    lift (db.vector mode)

/-- The name of the matrix of a relation, or the transpose of it. -/
def nameRelation (mode : Mode) (transpose : Bool) : Deriving α Formula := do
  require (mode.arity = 2) .unstated
  let db ← withModel database
  let straight ← lift (Mode.parse (mode.functor ++ "(i,o)"))
  let m ← nameMatrix ⟨mode.functor, 2⟩ ("M__" ++ mode.functor) false do
    require (db.relations.contains ⟨mode.functor, 2⟩) (.noValue mode.text)
    lift (db.matrix straight false)
  return if ← lift (Database.isTransposed mode transpose) then .transpose m else m

def nameEntity (symbol : String) (type : Option String) : Deriving α Formula := do
  nameRow symbol ((← withModel database).oneHot symbol type)

/-- Names the rows of null entities, one for each type. -/
def nameSharedRows : Deriving α Unit := do
  if (← formulary).prepared then return
  let db ← withModel database
  for type in db.schema.types do
    let _ ← nameRow ("_nullSmoother_" ++ type) do
      let nulls ← Database.nullRows 1 (← db.dim (some type))
      nulls.scale (Scalar.ofLiteral (.decimal false 1 (-5)))
  if db.isTypeless then
    let type ← lift db.schema.defaultType
    updateFormulary fun x => { x with onlyType := some type }
  updateFormulary fun x => { x with prepared := true }

def actionFormula (s : NameSpace) (type : Option String) : Action → Deriving α Formula
  | .product x mode transpose => do
    let v ← lift (s.get x)
    return .product v (← nameRelation mode transpose)
  | .preimage mode => do
    let db ← withModel database
    let ones ← nameRow "__ones" (db.preimageType mode >>= db.ones)
    return .product ones (← nameRelation mode true)
  | .plugin xs mode => do
    match (← state).1.program.plugins.definitions.get? mode with
    | some d => return .plugin d.written (← xs.mapM fun x => lift (s.get x))
    | none => fail .notFound
  | .hadamard x y => return .hadamard (← lift (s.get x)) (← lift (s.get y))
  | .oneHot _ constant => nameEntity constant type
  | .vector mode => nameVector mode
  | .weighted w x => do
    let row ← lift (s.get x)
    return .weighted row (← lift (s.get w))

/-- A new name space for a rule, with inputs that are new or shared. -/
def enterRule (p : Plan) (names : List String) (shared : Option (List Formula)) :
    Deriving α (NameSpace × List Formula) := do
  require (names.length = 1) .severalSources
  let f ← formulary
  let s : NameSpace := { id := f.nextSpace }
  updateFormulary fun x => { x with nextSpace := x.nextSpace + 1 }
  let inputs ← match shared with
    | some inputs => do
      require (names.length = inputs.length) .unstated
      pure inputs
    | none => do
      let db ← withModel database
      (names.zip (← lift (f.inputTypes p))).mapM fun (x, type) => do
        let settings ← settings
        if !db.isTypeless && type.isNone && !settings.allowUnknownTypes then
          complain ("unknown type trying to compile function " ++ p.summary ++ " # " ++
            p.comment settings.dialect)
          complain ("unknown type for " ++ s.internalName x ++
            " - set xcomp.conf.ignoreTypeCheck to allow")
          refuse .unstated
        return .input (s.internalName x) type
  return ((names.zip inputs).foldl (fun s (x, e) => s.bind x e) s, inputs)

mutual

/-- The formula of a plan, with inputs that are new or shared. -/
def deriveFormula (shared : Option (List Formula)) : Plan → Deriving α Derived
  | .softmax _ p => do
    let d ← deriveFormula shared p
    return { d with formula := .softmax d.formula d.type }
  | .sum _ [] => refuse .unstated
  | .sum _ (p :: ps) => do deriveSum (← deriveFormula shared p) ps
  | .sequence i xs y ss r => do
    let p : Plan := .sequence i xs y ss r
    let (s, inputs) ← enterRule p xs shared
    let s ← deriveSteps s ss
    return ⟨inputs, ← lift (s.get y), (← formulary).outputType p⟩
  | .null i m => do
    let type := (← formulary).outputType (.null i m)
    let db ← withModel database
    return ⟨[], ← nameRow "__zeros" (db.zeros 1 type), type⟩
  | .log i p => do refuse (.noFormula (← lift (Plan.log i p).shown))

/-- Adds the formulas of plans, which share the inputs of the first. -/
def deriveSum (sum : Derived) : List Plan → Deriving α Derived
  | [] => return sum
  | p :: ps => do
    let d ← deriveFormula (some sum.inputs) p
    require (d.type = sum.type)
      (.unequalAddends (Formula.typeText sum.type) (Formula.typeText d.type))
    require (d.inputs.length = sum.inputs.length) .unstated
    deriveSum { sum with formula := .sum sum.formula d.formula } ps

def deriveSteps (s : NameSpace) : List Step → Deriving α NameSpace
  | [] => return s
  | .act i a :: ss => do
    let e ← actionFormula s i.type a
    deriveSteps (s.bind i.target e) ss
  | .call i x _ _ body :: ss => do
    let d ← deriveFormula (some [← lift (s.get x)]) body
    deriveSteps (s.bind i.target d.formula) ss

end

def deriveLoss (inference : Derived) : Deriving α Loss := do
  let f ← formulary
  return {
    inputs := inference.inputs.map Formula.text ++ [Formula.target]
    loss := inference.formula.lossText
    gradients := (← withModel database).params.filterMap fun mark =>
      (mark.relation?.bind f.handle?).map fun h => Formula.gradientText h.name }

def deriveDraft (mode : Mode) (shared : Option (List Formula)) (plan : Plan) :
    Deriving α Unit := do
  nameSharedRows
  let inference ← match plan with
    | .softmax _ p => do
      let d ← deriveFormula shared p
      updateDraft mode fun x => { x with proofCount := some d }
      pure { d with formula := .softmax d.formula d.type }
    | _ => do
      warn ("cannot recover proofCount expression for mode " ++ mode.text ++
        " -  is it not softmax normalized?")
      deriveFormula shared plan
  updateDraft mode fun x => { x with inference := some inference }
  let loss ← deriveLoss inference
  updateDraft mode fun x => { x with loss := some loss }

/-- The draft of a mode, which is made unless it was begun before. -/
def draftFor (mode : Mode) (shared : Option (List Formula)) : Deriving α Draft := do
  let known := (← formulary).drafts.contains mode
  updateFormulary fun x => { x with current := some mode }
  if !known then
    updateDraft mode id
    let plan ← withModel (queryPlan mode)
    updateDraft mode fun x => { x with plan := some plan }
    deriveDraft mode shared plan
  return (← formulary).draft mode

/-- All products of a row with matrices of the database, with their types. -/
def possibleProducts (row : Formula) (type : Option String) :
    Deriving α (List (Formula × Option String)) := do
  let db ← withModel database
  if type.isNone then require db.isTypeless .untypedInput
  let type := type.getD thing
  let products ← (db.relations.keys.filter (·.arity = 2)).mapM fun p => do
    let mode ← lift (Mode.parse (p.functor ++ "(i,o)"))
    let forth ← if db.schema.domain p = some type then do
        pure [(Formula.product row (← nameRelation mode false), db.schema.range p)]
      else pure []
    let back ← if db.schema.range p = some type then do
        pure [(Formula.product row (← nameRelation mode true), db.schema.domain p)]
      else pure []
    return forth ++ back
  return products.flatten

def paramHandles : Deriving α (List String) := do
  let f ← formulary
  (← withModel database).params.mapM fun mark =>
    match mark.relation?.bind f.handle? with
    | some h => pure h.name
    | none => fail .notFound

/-- What was learned, as the language of the formulas gives it. -/
def learnedParam (learn : Operand α → Except Error (Operand α)) (p : Predicate) :
    Deriving α (Operand α) := do
  match (← withModel database).relations.get? p with
  | some x => lift (learn x)
  | none => fail .notFound

/-- Stores what was learned for the parameters. -/
def exportParams (learn : Operand α → Except Error (Operand α)) : Deriving α Unit := do
  for mark in (← withModel database).params do
    let p ← lift mark.relation
    let x ← learnedParam learn p
    withModel (putParam p x)

end Run

end BeliefLogic
