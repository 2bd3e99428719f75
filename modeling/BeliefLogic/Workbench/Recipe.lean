import BeliefLogic.CommandLine.Sources
import BeliefLogic.Workbench.Formulas

/-!
# Making things

Recipes for the things of a session. A thing is kept in the store and named.
-/

namespace BeliefLogic.Workbench

open Run

variable {α : Type} [Scalar α]

def currentDatabase : Work α Nat := do
  match ← lookup "db" with
  | .thing id => return id
  | _ => throw .unnamed

def theoryOfTexts (rules : List String) (d : Dialect) : Except Error Theory :=
  rules.foldlM (fun t s =>
    match Grammar.parseRule? d s with
    | some r => t.add r
    | none => .error .unreadable) { dialect := d }

def oneHotRow (symbol : String) (type : Option String) : Work α (Value α) := do
  lift ((← database (← currentDatabase)).oneHot symbol type)

def weightedRow (weights : List (String × α)) (type : Option String) : Work α (Value α) := do
  let db ← database (← currentDatabase)
  let zero ← lift (db.zeros 1 type)
  let m ← weights.foldlM (fun (m : Matrix α) (symbol, w) => do
    lift (m.add (← lift ((← lift (db.oneHot symbol type)).scale w)))) zero
  return .matrix m

/-- A matrix from coordinates, rounded before they are added up. -/
def matrixOfEntries (height width : Int) (entries : List (Int × Int × α)) :
    Except Error (Matrix α) := do
  if height < 0 ∨ width < 0 then throw .malformed
  let entries ← entries.mapM fun (i, j, x) => do
    if i < 0 ∨ j < 0 then throw .malformed
    return (i.toNat, j.toNat, ← Scalar.store x)
  Matrix.ofEntries height.toNat width.toNat entries

/-- A matrix from its stored form: values, columns and the starts of rows. -/
def matrixOfStorage (height width : Int) (values : List α) (columns starts : List Int) :
    Except Error (Matrix α) := do
  let values ← values.mapM Scalar.store
  if height < 0 ∨ width < 0 ∨ starts.length ≠ height + 1 ∨ starts.head? ≠ some 0 ∨
      columns.length ≠ values.length then throw .malformed
  let last := starts.getLastD 0
  if values.length < last ∨ last < 0 then throw .malformed
  let columns := columns.take last.toNat
  if columns.any fun j => decide (j < 0 ∨ width ≤ j) then throw .malformed
  let cells := (columns.map Int.toNat).zip values
  let rows := (starts.zip starts.tail).map fun (lo, hi) => (cells.take hi.toNat).drop lo.toNat
  return ⟨width.toNat, rows.toArray⟩

inductive RuleSource where
  | texts (rules : List String) (dialect : Dialect)
  | files (paths : String)
  | saved (directory : String)
  | current

inductive Recipe (α : Type) where
  | symbols (names : Value α)
  | schema (typed : Bool) (lines : Option (List String))
  | theory (rules : List String) (dialect : Dialect)
  | database (typed : Option Bool) (lines : Value α)
  | examples (items : List (Mode × Operand α × Operand α)) (name : String)
  | plugins (modes : List Plugin)
  | program (features : Bool) (source : RuleSource) (weights : Option (Operand α))
  | analysis (mode : Mode) (rule : Rule) (depth : Int)
  | learner (l : Learner α)
  | gradients (figures : Figures α)
  | counters (counters : List (Counter α)) (oneByOne : Bool)
  | formulary
  | formulaLearner (epochs : Amount α)

def introduce (name : String) (t : Thing α) : Work α (Value α) := do
  let v : Value α := .thing (← keep t)
  assign name v
  return v

def lookup? (name : String) : Work α (Option (Value α)) := return (← state).names.get? name

def currentProgram : Work α Nat := do
  match ← lookup "prog" with
  | .thing id => return id
  | _ => throw .unnamed

def currentDatabase? : Work α (Option Nat) := do
  return match ← lookup? "db" with
    | some (.thing id) => some id
    | _ => none

def currentPlugins : Work α Plugins := do
  match ← lookup? "plugins" with
  | some (.thing id) =>
    match ← thingAt id with
    | .plugins p => return p
    | _ => return {}
  | _ => return {}

/-- The rules of a program; a saved one brings its database. -/
def RuleSource.load : RuleSource → Work α Nat
  | .texts rules dialect => do keepTheory (← lift (theoryOfTexts rules dialect))
  | .files paths => do keepTheory (← readRuleFiles paths)
  | .saved directory => do
    let (db, t) ← Run.loadProgram directory
    let id ← keepDatabase db
    assignDatabase id
    keepTheory t
  | .current => do
    match ← lookup "rules" with
    | .thing id => return id
    | _ => missing

def Recipe.make : Recipe α → Work α (Value α)
  | .symbols names => do
    let (t, kept) ← (← itemsOf names).foldlM (fun (t, kept) v => do
      if !v.isKey then mismatch
      return if t.has v.keyForm then (t, kept) else (t.insert v.keyForm, kept ++ [v]))
      (Symbols.empty, [])
    let _ ← introduce "symtab" (.symbols t kept)
    return .list kept
  | .schema typed lines => do
    let s ← match typed, lines with
      | true, some lines => lift (Schema.readTyped lines)
      | false, some lines => lift (Schema.readUntyped lines)
      | true, none => pure .emptyTyped
      | false, none => pure .emptyUntyped
    introduce "schema" (.schema s)
  | .theory rules dialect => do
    let v : Value α := .thing (← keepTheory (← lift (theoryOfTexts rules dialect)))
    assign "rules" v
    return v
  | .database typed lines => do
    let id ← keepDatabase (.ofSchema (← freshSchema typed))
    assignDatabase id
    try
      match lines with
      | .nothing => pure ()
      | lines =>
        let _ ← DatabaseCommand.addFacts.perform id (← Workbench.database id) [some lines]
    finally assignDatabase id
    return .thing id
  | .examples items name => do
    introduce name (.examples
      { inputs := .ofList (items.map fun (m, x, _) => (m, x)),
        outputs := .ofList (items.map fun (m, _, y) => (m, y)) })
  | .plugins modes => do
    let p ← modes.foldlM (fun (p : Plugins) d =>
      return p.define (← lift (Mode.parse d.written)) d) {}
    let _ ← introduce "plugins" (.plugins p)
    return .truth p.isEmpty
  | .program features source weights => do
    let saved := match source with
      | .saved _ => true
      | _ => false
    let theory ← source.load
    let plugins ← if saved then pure {} else currentPlugins
    let id ← keepProgram features theory (← currentDatabase?) plugins weights
    assign "prog" (.thing id)
    return .thing theory
  | .analysis mode rule depth => do
    let s ← settings
    let program ← currentProgram
    let a ← lift (Analysis.ofRule s.strictRules s.dialect mode depth rule)
    let _ ← introduce "compiler" (.analysis a program)
    return .ofRule a.rule
  | .learner l => do
    let program ← currentProgram
    if l.method = .adaptive then warnAdaptive
    match l.method, l.workers with
    | .parallel, .written _ | .parallel, .other _ | .adaptive, .written _
    | .adaptive, .other _ => mismatch
    | _, _ => pure ()
    let v ← introduce "regularizer" (.regularizer l.regularizer)
    if let .thing regularizer := v then
      let _ ← introduce "learner" (.learner l program regularizer)
    return .nothing
  | .gradients figures => introduce "grads" (.gradients { figures })
  | .counters items oneByOne => do
    let merged ← lift (if oneByOne then
      items.foldlM (fun (merged : Counter α) c => merged.mergeInto [c]) {}
      else Counter.merge items)
    let v : Value α := .view (.counter (← keep (.collection (.ofCounter merged))))
    assign "counters" v
    return v
  | .formulary => do
    let _ ← introduce "xc" (.formulary {} (← currentProgram))
    return .nothing
  | .formulaLearner epochs => do
    let program ← currentProgram
    match ← lookup "xc" with
    | .thing id =>
      let _ ← introduce "xlearner" (.formulaLearner epochs id program)
      return .nothing
    | _ => throw .unnamed

end BeliefLogic.Workbench
