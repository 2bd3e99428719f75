import BeliefLogic.Workbench.Value

/-!
# Sessions

A session is a store of things with names for values.
-/

namespace BeliefLogic.Workbench

open Run

structure Bench (α : Type) where
  names : Dictionary String (Value α) := {}
  things : Array (Thing α) := #[]
  notes : Dictionary (Nat × String) (Value α) := {}
  deriving Inhabited

abbrev Work (α : Type) := Run α (Bench α)

variable {α : Type}

/-- A command that only does something answers with nothing. -/
instance : Coe Unit (Value α) := ⟨fun _ => .nothing⟩

instance : Coe (Matrix α) (Value α) := ⟨.matrix⟩

def missing {β : Type} : Work α β := throw .missingPart

def mismatch {β : Type} : Work α β := throw .illTyped

def lookup (name : String) : Work α (Value α) := do
  match (← state).names.get? name with
  | some v => return v
  | none => throw .unnamed

def keep (t : Thing α) : Work α Nat := do
  let b ← state
  setState { b with things := b.things.push t }
  return b.things.size

def made (t : Thing α) : Work α (Value α) := return .thing (← keep t)

def keepGoals (goals : List (Term α)) : Work α Nat := keep (.collection (.list (goals.map .goal)))

def keepRule (c : Clause α) (made : Bool) : Work α Nat := do
  let body ← keepGoals c.body
  let features ← c.features.mapM keepGoals
  keep (.rule c.head body features (← c.generator.mapM keepGoals) made)

def thingAt (id : Nat) : Work α (Thing α) := do
  match (← state).things[id]? with
  | some t => return t
  | none => throw .unnamed

/-- The thing that a value stands for, with its number. -/
def meant? : Value α → Work α (Option (Nat × Thing α))
  | .thing id => return some (id, ← thingAt id)
  | _ => return none

def Bench.putThing (b : Bench α) (id : Nat) (t : Thing α) : Bench α :=
  { b with things := b.things.set! id t }

def replace (id : Nat) (t : Thing α) : Work α Unit := Run.update fun b => b.putThing id t

/-- A value that can be named. What can change is kept, and all that share the name see it change.
-/
def nameable (v : Value α) : Work α (Value α) := do
  match v with
  | .list _ | .dictionary _ | .set _ => return .view (.collection (← keep (.collection v)))
  | .rule c made => return .thing (← keepRule c made)
  | v => return v

def assign (name : String) (v : Value α) : Work α Unit := do
  let v ← nameable v
  Run.update fun b => { b with names := b.names.put name v }

def note (id : Nat) (name : String) (v : Value α) : Work α Unit :=
  Run.update fun b => { b with notes := b.notes.put (id, name) v }

def noted? (id : Nat) (name : String) : Work α (Option (Value α)) :=
  return (← state).notes.get? (id, name)

def depthNote : String := "greatest depth"

def normalizationNote : String := "normalization"

def plainly {β : Type} (act : Run α Unit β) : Work α β := Run.focus (fun _ => ()) (fun _ b => b) act

def Bench.schemaAt (b : Bench α) (id : Nat) : Schema :=
  match b.things[id]? with
  | some (.schema s) => s
  | _ => .emptyUntyped

def Bench.databaseAt (b : Bench α) (id : Nat) : Database α :=
  match b.things[id]? with
  | some (.database db schema) => { db with schema := b.schemaAt schema }
  | _ => default

/-- Puts a database back. A schema that became typed is new; others are shared. -/
def Bench.putDatabase (id : Nat) (db : Database α) (b : Bench α) : Bench α :=
  match b.things[id]? with
  | some (.database _ schema) =>
    if (b.schemaAt schema).isTypeless && !db.schema.isTypeless then
      { b with things := (b.things.push (.schema db.schema)).set! id (.database db b.things.size) }
    else
      { b with things := (b.things.set! schema (.schema db.schema)).set! id (.database db schema) }
  | _ => b

def Bench.schemaOf (b : Bench α) (id : Nat) : Nat :=
  match b.things[id]? with
  | some (.database _ schema) => schema
  | _ => 0

def database (id : Nat) : Work α (Database α) := return (← state).databaseAt id

def onDatabase {β : Type} (id : Nat) (act : Run α (Database α) β) : Work α β :=
  Run.focus (·.databaseAt id) (Bench.putDatabase id) act

def onSchema {β : Type} (id : Nat) (act : Run α Schema β) : Work α β :=
  Run.focus (·.schemaAt id) (fun s b => { b with things := b.things.set! id (.schema s) }) act

def keepDatabase (db : Database α) : Work α Nat := do
  let schema ← keep (.schema db.schema)
  keep (.database db schema)

def assignDatabase (id : Nat) : Work α Unit := do
  assign "db" (.thing id)
  assign "schema" (.thing ((← state).schemaOf id))

def Bench.examplesAt (b : Bench α) (id : Nat) : Examples α :=
  match b.things[id]? with
  | some (.examples e) => e
  | _ => {}

def onExamples {β : Type} (id : Nat) (act : Run α (Examples α) β) : Work α β :=
  Run.focus (·.examplesAt id) (fun e b => { b with things := b.things.set! id (.examples e) }) act

def Bench.collectionAt (b : Bench α) (id : Nat) : Value α :=
  match b.things[id]? with
  | some (.collection v) => v
  | _ => .list []

def Bench.goalsAt (b : Bench α) (id : Nat) : List (Term α) :=
  match b.collectionAt id with
  | .list items => items.filterMap fun
    | .goal t => some t
    | _ => none
  | _ => []

def Bench.ruleAt? (b : Bench α) (id : Nat) : Option (Clause α × Bool) :=
  match b.things[id]? with
  | some (.rule head body features generator made) =>
    some (⟨head, b.goalsAt body, features.map b.goalsAt, generator.map b.goalsAt⟩, made)
  | _ => none

def Bench.ruleNumbers (b : Bench α) (group : Nat) : List Nat :=
  match b.collectionAt group with
  | .list items => items.filterMap fun
    | .thing id => some id
    | _ => none
  | _ => []

def Bench.theoryAt [Scalar α] (b : Bench α) (id : Nat) : Theory :=
  match b.things[id]? with
  | some (.theory dialect groups) =>
    { dialect, groups := groups.map fun (key, group) =>
        (key, (b.ruleNumbers group).filterMap fun r => (b.ruleAt? r).map (·.1.rule)) }
  | _ => default

def keepGroup (rules : List Nat) : Work α Nat := keep (.collection (.list (rules.map .thing)))

def keepTheory [Scalar α] (t : Theory) : Work α Nat := do
  let groups ← t.groups.mapM fun (key, rules) => do
    return (key, ← keepGroup (← rules.mapM fun r => keepRule (.ofRule r) false))
  keep (.theory t.dialect groups)

def addRule [Scalar α] (theory rule : Nat) : Work α Unit := do
  let b : Bench α ← state
  match b.ruleAt? rule, b.things[theory]? with
  | some ({ head := some g, .. }, _), some (.theory dialect groups) =>
    match groups.lookup g.goal.key with
    | some group =>
      replace group (.collection (.list ((b.ruleNumbers group ++ [rule]).map .thing)))
    | none =>
      replace theory (.theory dialect (groups ++ [(g.goal.key, ← keepGroup [rule])]))
  | _, _ => throw .noHead

def Bench.plansAt (b : Bench α) (id : Nat) : PlanTable :=
  match b.things[id]? with
  | some (.plans t) => t
  | _ => {}

def Bench.modelAt [Scalar α] (b : Bench α) (id : Nat) : Model α :=
  match b.things[id]? with
  | some (.program p theory plans database) =>
    { program := { p with theory := b.theoryAt theory, plans := b.plansAt plans }
      database := database.map b.databaseAt }
  | _ => default

/-- Puts a program and its database back. The rules stay. -/
def Bench.putModel (id : Nat) (m : Model α) (b : Bench α) : Bench α :=
  match b.things[id]? with
  | some (.program _ theory plans database) =>
    let b := (b.putThing id (.program m.program theory plans database)).putThing plans
      (.plans m.program.plans)
    match database, m.database with
    | some d, some db => b.putDatabase d db
    | _, _ => b
  | _ => b

def onModel [Scalar α] {β : Type} (id : Nat) (act : Run.Modelling α β) : Work α β :=
  Run.focus (·.modelAt id) (Bench.putModel id) act

def onTraining [Scalar α] {β : Type} (id examples : Nat) (act : Run.Training α β) : Work α β :=
  Run.focus (fun b => (b.modelAt id, b.examplesAt examples))
    (fun (m, e) b => { Bench.putModel id m b with
      things := (Bench.putModel id m b).things.set! examples (.examples e) }) act

def onAnalysis [Scalar α] {β : Type} (id program : Nat) (act : Run.Analysing α β) : Work α β :=
  Run.focus
    (fun b => ((b.modelAt program).program,
      match b.things[id]? with
      | some (.analysis a _) => a
      | _ => default))
    (fun (p, a) b =>
      let b := Bench.putModel program { b.modelAt program with program := p } b
      { b with things := b.things.set! id (.analysis a program) }) act

def regularizerAt (id : Nat) : Work α (Regularizer α) := do
  match ← thingAt id with
  | .regularizer r => return r
  | _ => return .none

def keepLearner (l : Learner α) (program : Nat) : Work α Nat := do
  let regularizer ← keep (.regularizer l.regularizer)
  keep (.learner l program regularizer)

def onFormulary [Scalar α] {β : Type} (id program : Nat) (act : Run.Deriving α β) : Work α β :=
  Run.focus
    (fun b => (b.modelAt program,
      match b.things[id]? with
      | some (.formulary f _) => f
      | _ => default))
    (fun (m, f) b =>
      let b := Bench.putModel program m b
      { b with things := b.things.set! id (.formulary f program) }) act

end BeliefLogic.Workbench
