import BeliefLogic.Database.Storage
import BeliefLogic.Matrix.Adaptive
import BeliefLogic.Program.Compile

/-!
# Models and feature rules

A rule named by a constant `{r}` is weighed by `weighted(r)`, one with a feature `{f(F) : g(X,F)}`
by the `f(F)` that the generator finds. Both become goals of the body.
-/

namespace BeliefLogic

/-- A program with its database. -/
structure Model (α : Type) where
  program : Program
  database : Option (Database α)
  /-- The databases of training: one for each parameter that it put. -/
  passed : Array (Database α) := #[]
  deriving Inhabited

/-- How a rule is weighed. -/
inductive FeatureUse where
  | nothing
  | ruleName (name : String)
  /-- A parameter over all values of a variable that generators bind. -/
  | parameter (functor value : String) (generator : List Goal)
  deriving DecidableEq, Repr

namespace Rule

def weighted : String := "weighted"

/-- The goals that features add to the body, and what they ask for. -/
def additions (r : Rule) : Except Error (List Goal × FeatureUse) := do
  match r.features with
  | none => return ([], .nothing)
  | some features =>
    match r.generator.getD [] with
    | [] =>
      match features with
      | [f] =>
        if f.arity ≠ 0 then throw (.refused .noGenerator)
        let v := Text.upper f.functor
        return ([⟨assignment, [v, f.functor]⟩, ⟨weighted, [v]⟩], .ruleName f.functor)
      | _ => throw (.refused .severalNames)
    | generator =>
      match features with
      | [⟨functor, [v]⟩] =>
        let goals := generator.filter fun g => g.arity ≠ 0 && g.functor ≠ "true"
        return (goals ++ [⟨functor, [v]⟩], .parameter functor v generator)
      | [_] => throw (.refused .featureArity)
      | _ => throw (.refused .severalFeatures)

/-- A rule with its features moved to the body, and what they ask for. -/
def expand (r : Rule) : Except Error (Rule × FeatureUse) := do
  let (goals, use) ← r.additions
  return ({ head := r.head, body := r.body ++ goals }, use)

end Rule

/-- The modes of the generator that lead from a value of a feature. -/
def featureDomains (value : String) (generator : List Goal) : Except Error (List Mode) :=
  (generator.filter fun g => g.arity == 2 && g.args.contains value).mapM fun g =>
    Mode.parse (g.functor ++ (if g.args.head? = some value then "/io" else "/oi"))

namespace Run

variable {α : Type} [Scalar α]

abbrev Modelling (α : Type) := Run α (Model α)

def database : Modelling α (Database α) := do
  match (← state).database with
  | some db => return db
  | none => fail .missingPart

def onProgram {β : Type} (act : Run α Program β) : Modelling α β :=
  focus (·.program) (fun p m => { m with program := p }) act

def onDatabase {β : Type} (act : Run α (Database α) β) : Modelling α β := do
  let db ← database
  focus (fun m => m.database.getD db) (fun db m => { m with database := some db }) act

/-- Applies a function to all rules; the relation at which it fails is named. -/
def mapRules (f : Rule → Modelling α Rule) : Modelling α Unit := do
  for (key, rules) in (← state).program.theory.groups do
    let mapped ← tryCatch (rules.mapM f) fun e => do
      say ("Trouble mapping rule " ++ key ++ ":")
      fail e
    update fun m => { m with program := { m.program with theory := { m.program.theory with
      groups := m.program.theory.groups.map fun (k, rs) =>
        if k = key then (k, mapped) else (k, rs) } } }

def refuseFeatures {σ : Type} (r : Rule) : Run α σ Unit := do
  require ((r.features.getD []).isEmpty) (.unexpectedFeatures (r.text (← settings).dialect))

def updateFeatures (f : Features → Features) : Modelling α Unit :=
  update fun m => { m with program := { m.program with
    features := some (f (m.program.features.getD {})) } }

def noteUse (use : FeatureUse) : Modelling α Unit := do
  match use with
  | .nothing => pure ()
  | .ruleName name => updateFeatures fun f => { f with ruleNames := f.ruleNames ++ [name] }
  | .parameter functor value generator =>
    onDatabase (update (·.markParam ⟨functor, 1⟩))
    if (← database).isTypeless then
      for mode in ← lift (featureDomains value generator) do
        updateFeatures fun f => { f with domains := f.domains.change functor [] (· ++ [mode]) }

/-- Moves the features of a rule to its body, and notes what they ask for. -/
def expandFeatures (r : Rule) : Modelling α Rule := do
  let (r, use) ← lift r.expand
  noteUse use
  return r

/-- Makes a program of rules, with or without feature rules. -/
def prepare (features : Bool) : Modelling α Unit := do
  if features then
    updateFeatures id
    mapRules expandFeatures
  else mapRules fun r => do
    refuseFeatures r
    return r

/-- What a program without feature rules says when weights are to be set. -/
def noFeatureRules : Modelling α Unit :=
  warn "trying to call setFeatureWeights on a non-ProPPR program"

def putParam (p : Predicate) (x : Operand α) : Modelling α Unit :=
  onDatabase (modifyChecked (·.putParam p x))

def setParam (p : Predicate) (m : Matrix α) : Modelling α Unit := putParam p (.matrix m)

def clipUnit (m : Matrix α) : Matrix α := m.map (Scalar.clip (some 0) (some 1))

/-- Sets the weights of named rules: given, of a relation, or constant. -/
def setRuleWeights (weights : Option (Operand α)) (scale : Amount α) (relation : Option String) :
    Modelling α Unit := do
  let some features := (← state).program.features | noFeatureRules
  if features.ruleNames.isEmpty then return
  let p : Predicate := ⟨Rule.weighted, 1⟩
  let mark : Modelling α Unit := onDatabase (update (·.markParam p))
  match relation with
  | some functor =>
    require ((← database).relations.contains ⟨functor, 1⟩) (.noRuleRelation functor)
    mark
    let mode ← lift (Mode.parse (functor ++ "(o)"))
    let row ← lift ((← database).rowOperand mode)
    putParam p (← lift (row.scaled scale))
  | none =>
    require (← database).isTypeless .typedRuleWeights
    mark
    let row ← match weights with
      | some row => pure row
      | none =>
        let db ← database
        match features.ruleNames with
        | [] => fail .outOfRange
        | name :: names =>
          let sum ← names.foldlM (fun (m : Matrix α) name => do
            lift (m.add (← lift (db.oneHot name none)))) (← lift (db.oneHot name none))
          pure (.matrix (clipUnit sum))
    putParam p (← lift (row.scaled scale))

def ruleWeights : Modelling α (Operand α) := do
  if (← state).program.features.isNone then fail .missingPart
  match (← database).relations.get? ⟨Rule.weighted, 1⟩ with
  | some m => return m
  | none => fail .notFound

/-- The mean of the preimages of modes, confined to the unit interval. -/
def featureRow (db : Database α) : List Mode → Except Error (Matrix α)
  | [] => .error .outOfRange
  | mode :: modes => do
    let sum ← modes.foldlM (fun (m : Matrix α) mode => do m.add (← db.preimage mode))
      (← db.preimage mode)
    return clipUnit (← sum.scale (1 / Scalar.ofNat (modes.length + 1)))

/-- Sets the weights of features that range over relations without types. -/
def setUntypedWeights (features : Features) (scale : Amount α) : Modelling α Unit := do
  for (functor, modes) in features.domains.entries do
    let row ← lift (featureRow (← database) modes)
    setParam ⟨functor, 1⟩ (← lift (do row.scale (← scale.factor)))
  let db ← database
  for mark in db.params do
    if !mark.relation?.any db.relations.contains then warn "Parameter %s could not be set automatically"

/-- The modes of a head that compute one argument from all others. -/
def oneOutputModes (head : Goal) : Except Error (List Mode) :=
  (List.range head.arity).mapM fun k =>
    Mode.parse (head.functor ++ "/" ++
      String.join ((List.range head.arity).map fun i => if i = k then "o" else "i"))

/-- Declares the types of parameters that stand in the body of a rule. -/
def declareParams (r : Rule) : Modelling α Unit := do
  let head ← match r.head with
    | some head => pure head
    | none => fail .missingPart
  for mode in ← lift (oneOutputModes head) do
    let s ← settings
    let a ← lift (Analysis.ofRule s.strictRules s.dialect mode 0 r)
    let schema := (← state).database.map (·.schema)
    let (types, _) ← onProgram (beside a (inferredTypes schema))
    for g in r.body do
      match g.args with
      | [x] =>
        if (← database).isParam ⟨g.functor, 1⟩ then
          match (types.get? x).join with
          | some type =>
            onDatabase (focus (·.schema) (fun s db => { db with schema := s })
              (declareTypes g.functor [type]))
          | none => fail .illTyped
      | _ => pure ()

def setTypedWeights (scale : Amount α) : Modelling α Unit := do
  for r in (← state).program.theory.rules do declareParams r
  for mark in (← database).params do
    if mark.arity.whole? = some 1 then
      let p ← lift mark.relation
      let db ← database
      let type ← lift (db.schema.argType p 0)
      setParam p (← lift (do (← db.ones type).scale (← scale.factor)))
    else warn ("cannot set weights of matrix parameter " ++ mark.text ++ " automatically")

def setFeatureWeights (scale : Amount α) : Modelling α Unit := do
  let some features := (← state).program.features | noFeatureRules
  if (← database).isTypeless then setUntypedWeights features scale else setTypedWeights scale

def setAllWeights : Modelling α Unit := do
  setFeatureWeights (.real 1)
  setRuleWeights none (.real 1) none
  let db ← database
  checkTyping db.schema db.relations.keys false

end Run

end BeliefLogic
