import BeliefLogic.Workbench.Bench

/-!
# Lists and dictionaries of a session

A list or dictionary is seen through a view and changed where it belongs. When parts of a plan are
taken out, values follow the others to their new places.
-/

namespace BeliefLogic.Workbench

open Run

variable {α : Type}

def nesting : Nat := 1000

def Bench.plansOf (b : Bench α) (program : Nat) : Nat :=
  match b.things[program]? with
  | some (.program _ _ plans _) => plans
  | _ => 0

def Bench.calledPlans (b : Bench α) (place : PlanPlace) : Nat :=
  match place.source with
  | .table plans _ _ => plans
  | .kept id =>
    match b.things[id]? with
    | some (.plan plans _) => plans
    | _ => 0
  | .analysis _ => b.plansOf place.program

/-- The whole plan around a place, with called plans as they are now. -/
def Bench.rootAt? (b : Bench α) (place : PlanPlace) : Option Plan :=
  let root := match place.source with
    | .table plans mode depth => (b.plansAt plans).get? (mode, depth)
    | .kept id =>
      match b.things[id]? with
      | some (.plan _ p) => some p
      | _ => none
    | .analysis id =>
      match b.things[id]? with
      | some (.analysis a _) => some (.sequence {} [] "" a.emission.steps a.rule)
      | _ => none
  root.map (b.plansAt (b.calledPlans place)).refresh

def Bench.partAt? (b : Bench α) (place : PlanPlace) : Option PlanPart :=
  (b.rootAt? place).bind fun root => Plan.part? place.path (.plan root)

def Bench.putRoot (b : Bench α) (place : PlanPlace) (p : Plan) : Bench α :=
  match place.source with
  | .table plans mode depth =>
    b.putThing plans (.plans (PlanTable.settled ((b.plansAt plans).put (mode, depth) p)))
  | .kept id => b.putThing id (.plan (b.calledPlans place) p)
  | .analysis id =>
    match b.things[id]?, p with
    | some (.analysis a program), .sequence _ _ _ steps _ =>
      b.putThing id (.analysis { a with emission := { a.emission with steps } } program)
    | _, _ => b

def Bench.changePlan (b : Bench α) (place : PlanPlace) (f : Plan → Plan) : Bench α :=
  match b.rootAt? place with
  | some root => b.putRoot place (Plan.changeAt f place.path root)
  | none => b

def planAt (place : PlanPlace) : Work α Plan := do
  match (← state).partAt? place with
  | some (.plan p) => return p
  | _ => throw .unnamed

def stepAt (place : PlanPlace) : Work α Step := do
  match (← state).partAt? place with
  | some (.step s) => return s
  | _ => throw .unnamed

/-- The place of the plan of a call: the table's, unless it is a copy. -/
def Bench.bodyPlace (b : Bench α) (place : PlanPlace) (mode : Mode) (depth : Int) (body : Plan) :
    PlanPlace :=
  let plans := b.calledPlans place
  if !body.info.copied && (b.plansAt plans).contains (mode, depth) then
    ⟨place.program, .table plans mode depth, []⟩
  else place.below 0

def Value.ofPart (place : PlanPlace) : PlanPart → Value α
  | .plan _ => .plan place
  | .step _ => .step place

def keepPlan (program plans : Nat) (p : Plan) : Work α PlanPlace :=
  return ⟨program, .kept (← keep (.plan plans p)), []⟩

def keepPart (program plans : Nat) : PlanPart → Work α PlanPlace
  | .plan p => keepPlan program plans p
  | .step s => do
    return (← keepPlan program plans (.sequence {} [] "" [s] default)).below 0

def Bench.gradientsAt (b : Bench α) (id : Nat) : Changes α :=
  match b.things[id]? with
  | some (.gradients g) => g
  | _ => {}

def Bench.featuresAt (b : Bench α) (id : Nat) : Features :=
  match b.things[id]? with
  | some (.program p _ _ _) => p.features.getD {}
  | _ => {}

/-- The relations of a theory with the numbers of their rule lists. -/
def Bench.groupsAt (b : Bench α) (id : Nat) : List (String × Nat) :=
  match b.things[id]? with
  | some (.theory _ groups) => groups
  | _ => []

def Bench.bindingsAt (b : Bench α) (id : Nat) : Dictionary String (Value α × Value α) :=
  match b.things[id]? with
  | some (.bindings values _) => values
  | _ => {}

def Bench.preferencesAt (b : Bench α) (id : Nat) : Preferences α :=
  match b.things[id]? with
  | some (.preferences p) => p
  | _ => {}

def Bench.contents (b : Bench α) : Place → Value α
  | .collection id | .counter id => b.collectionAt id
  | .relations id =>
    .dictionary ((b.databaseAt id).relations.entries.map fun (p, x) => (.ofPredicate p, .ofOperand x))
  | .params id => .list ((b.databaseAt id).params.map .ofMark)
  | .inputs id => .dictionary ((b.examplesAt id).inputs.entries.map fun (m, x) => (.mode m, .ofOperand x))
  | .outputs id =>
    .dictionary ((b.examplesAt id).outputs.entries.map fun (m, y) => (.mode m, .ofOperand y))
  | .sums id => .dictionary (b.gradientsAt id).sums
  | .figures id => .ofFigures (b.gradientsAt id).figures
  | .groups id => .dictionary ((b.groupsAt id).map fun (key, group) => (.text key, .view (.collection group)))
  | .plans program plans =>
    .dictionary ((b.plansAt plans).keys.map fun (mode, depth) =>
      (.tuple [.mode mode, .integer depth], .plan ⟨program, .table plans mode depth, []⟩))
  | .parts place =>
    match b.partAt? place with
    | some (.plan p) => .list (p.parts.zipIdx.map fun (q, i) => .ofPart (place.below i) q)
    | _ => .list []
  | .values id => .dictionary (b.bindingsAt id).values
  | .ruleNames id => .ofTexts (b.featuresAt id).ruleNames
  | .domains id =>
    .dictionary ((b.featuresAt id).domains.entries.map fun (k, modes) => (.text k, .list (modes.map .mode)))
  | .preferences id =>
    .dictionary ((b.preferencesAt id).entries.map fun (name, d) => (.text name, .ofDatum d))

def Bench.settled (b : Bench α) : Nat → Value α → Value α
  | 0, v => v
  | n + 1, .view place => b.settled n (b.contents place)
  | n + 1, .list items => .list (items.map (b.settled n))
  | n + 1, .tuple items => .tuple (items.map (b.settled n))
  | n + 1, .dictionary entries => .dictionary (entries.map fun (k, v) => (k, b.settled n v))
  | _ + 1, .thing id => ((b.ruleAt? id).map fun (c, made) => .rule c made).getD (.thing id)
  | _ + 1, v => v

def settle (v : Value α) : Work α (Value α) := return (← state).settled nesting v

def Value.moved (f : PlanPlace → PlanPlace) : Nat → Value α → Value α
  | 0, v => v
  | _ + 1, .plan place => .plan (f place)
  | _ + 1, .step place => .step (f place)
  | _ + 1, .view (.parts place) => .view (.parts (f place))
  | n + 1, .list items => .list (items.map (moved f n))
  | n + 1, .tuple items => .tuple (items.map (moved f n))
  | n + 1, .dictionary entries => .dictionary (entries.map fun (k, v) => (k, moved f n v))
  | _ + 1, v => v

def Bench.moved (b : Bench α) (f : PlanPlace → PlanPlace) : Bench α where
  names := b.names.mapValues (Value.moved f nesting)
  notes := b.notes.mapValues (Value.moved f nesting)
  things := b.things.map fun
    | .collection v => .collection (v.moved f nesting)
    | .bindings values database =>
      .bindings (values.mapValues fun (name, v) => (name, v.moved f nesting)) database
    | t => t

/-- The place of a part after another was taken to a new place. -/
def PlanPlace.afterTaking (parent : PlanPlace) (i : Nat) (taken place : PlanPlace) : PlanPlace :=
  if place.source == parent.source && parent.path.isPrefixOf place.path then
    match place.path.drop parent.path.length with
    | [] => place
    | j :: rest =>
      if j = i then { taken with path := taken.path ++ rest }
      else if i < j then { place with path := parent.path ++ (j - 1) :: rest }
      else place
  else place

def takePart (place : PlanPlace) (i : Nat) : Work α (Value α) := do
  let b : Bench α ← state
  match b.partAt? (place.below i) with
  | some part =>
    let taken ← keepPart place.program (b.calledPlans place) part
    Run.update fun b => (b.changePlan place (Plan.erasePart i)).moved (place.afterTaking i taken)
    return .ofPart taken part
  | none => throw .outOfRange

def takePlan (program plans i : Nat) : Work α (Value α) := do
  let b : Bench α ← state
  match (b.plansAt plans).keys[i]? with
  | some (mode, depth) =>
    let source : PlanSource := .table plans mode depth
    match b.rootAt? ⟨program, source, []⟩ with
    | some p =>
      let taken ← keepPlan program plans p
      Run.update fun b => (b.putThing plans (.plans ((b.plansAt plans).erase (mode, depth)))).moved
        fun place => if place.source == source then { taken with path := place.path } else place
      return .plan taken
    | none => throw .notFound
  | none => throw .notFound

def withoutEntry {κ ν : Type} (i : Nat) (d : Dictionary κ ν) : Dictionary κ ν :=
  ⟨d.entries.eraseIdx i⟩

def updateFeatures (id : Nat) (f : Features → Features) : Work α Unit := do
  match ← thingAt id with
  | .program p theory plans database =>
    replace id (.program { p with features := p.features.map f } theory plans database)
  | _ => pure ()

def eraseAt (i : Nat) : Place → Work α Unit
  | .collection id | .counter id => do
    match (← state).collectionAt id with
    | .list items => replace id (.collection (.list (items.eraseIdx i)))
    | .dictionary entries => replace id (.collection (.dictionary (entries.eraseIdx i)))
    | .set items => replace id (.collection (.set (items.eraseIdx i)))
    | _ => pure ()
  | .relations id =>
    onDatabase id (Run.update fun db => { db with relations := withoutEntry i db.relations })
  | .params id => onDatabase id (Run.update fun db => { db with params := db.params.eraseIdx i })
  | .inputs id => onExamples id (Run.update fun e => { e with inputs := withoutEntry i e.inputs })
  | .outputs id => onExamples id (Run.update fun e => { e with outputs := withoutEntry i e.outputs })
  | .sums id => do
    let g := (← state).gradientsAt id
    replace id (.gradients { g with sums := g.sums.eraseIdx i })
  | .figures id => do
    let g := (← state).gradientsAt id
    replace id (.gradients { g with figures := withoutEntry i g.figures })
  | .groups id => do
    match ← thingAt id with
    | .theory dialect groups => replace id (.theory dialect (groups.eraseIdx i))
    | _ => pure ()
  | .values id => do
    match ← thingAt id with
    | .bindings values database => replace id (.bindings (withoutEntry i values) database)
    | _ => pure ()
  | .ruleNames id => updateFeatures id fun f => { f with ruleNames := f.ruleNames.eraseIdx i }
  | .domains id => updateFeatures id fun f => { f with domains := withoutEntry i f.domains }
  | .preferences id => do
    replace id (.preferences (withoutEntry i ((← state).preferencesAt id)))
  | .parts _ | .plans _ _ => pure ()

/-- Takes an item out of what a view shows, and returns it. -/
def takeAt (place : Place) (i : Nat) (item : Value α) : Work α (Value α) := do
  match place with
  | .parts plan => takePart plan i
  | .plans program plans => takePlan program plans i
  | place =>
    eraseAt i place
    return item

def keyPosition? [Scalar α] (entries : List (Value α × Value α)) (key : Value α) : Option Nat :=
  entries.findIdx? fun e => e.1.isSameKey key

/-- What a dictionary holds under a key, which has to be able to be one. -/
def entryOf? [Scalar α] (entries : List (Value α × Value α)) (key : Value α) :
    Work α (Option (Value α)) :=
  if key.isKey then return ((keyPosition? entries key).bind (entries[·]?)).map (·.2)
  else mismatch

/-- A new entry of a dictionary: zero, or an empty list. -/
def makeEntry [Scalar α] (key : Value α) : Place → Work α (Value α)
  | .counter id => do
    match (← state).collectionAt id with
    | .dictionary entries => replace id (.collection (.dictionary (entries ++ [(key, .number 0)])))
    | _ => pure ()
    return .number 0
  | .figures id => do
    let g := (← state).gradientsAt id
    if let .text name := key then
      replace id (.gradients { g with figures := g.figures.put name (.number 0) })
    return .number 0
  | .domains id => do
    if let .text name := key then
      updateFeatures id fun f => { f with domains := f.domains.put name [] }
    return .list []
  | .groups id => do
    match ← thingAt id, key with
    | .theory dialect groups, .text name =>
      let group ← keepGroup []
      replace id (.theory dialect (groups ++ [(name, group)]))
      return .view (.collection group)
    | _, _ => return .list []
  | _ => throw .notFound

/-- The item of a list at a position, or of a dictionary under a key. -/
def itemUnder [Scalar α] (place : Option Place) (contents key : Value α) : Work α (Value α) := do
  match contents, key with
  | .list items, .integer i | .tuple items, .integer i => lift (itemAt items i)
  | .list items, .truth b | .tuple items, .truth b => lift (itemAt items (if b then 1 else 0))
  | .dictionary entries, key =>
    match ← entryOf? entries key, place with
    | some v, _ => return v
    | none, some place => makeEntry key place
    | none, none => throw .notFound
  | .list _, _ | .tuple _, _ => mismatch
  | _, _ => missing

/-- Takes an item out of a list or dictionary, or of what a view shows. -/
def popItem [Scalar α] (place : Option Place) (contents : Value α) (args : List (Value α)) :
    Work α (Value α) := do
  let take (i : Nat) (item : Value α) : Work α (Value α) :=
    match place with
    | some place => takeAt place i item
    | none => return item
  match contents, args with
  | .list items, [] => at? take items (-1)
  | .list items, [.integer i] => at? take items i
  | .list items, [.truth b] => at? take items (if b then 1 else 0)
  | .dictionary entries, key :: rest =>
    if 1 < rest.length then mismatch
    if !entries.isEmpty && !key.isKey then mismatch
    match keyPosition? entries key, rest with
    | some i, _ => take i ((entries[i]?.map (·.2)).getD .nothing)
    | none, [other] => return other
    | none, _ => throw .notFound
  | .set [item], [] => take 0 (.text item)
  | .set [], [] => throw .notFound
  | .list _, _ | .dictionary _, _ | .set _, _ => mismatch
  | _, _ => missing
where
  at? (take : Nat → Value α → Work α (Value α)) (items : List (Value α)) (i : Int) :
      Work α (Value α) :=
    match position? items.length i with
    | some k => take k (items.getD k .nothing)
    | none => throw .outOfRange

end BeliefLogic.Workbench
