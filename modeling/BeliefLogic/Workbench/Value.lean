import BeliefLogic.CommandLine.Preferences
import BeliefLogic.Formula.Derivation
import BeliefLogic.Learning.Training
import BeliefLogic.Lexicon
import BeliefLogic.Plan.Sharing
import BeliefLogic.Rule.Building

/-!
# Values and things of a workbench

A thing that changes is kept in a store by number, so that two names may stand for it.
-/

namespace BeliefLogic.Workbench

open Text Scalar

inductive Elementwise where
  | square | negate | log | sqrt | reciprocal | double
  deriving DecidableEq, Repr

def Elementwise.apply {α : Type} [Scalar α] : Elementwise → α → Except Error α
  | .square, x => mul? x x
  | .negate, x => .ok (-x)
  | .log, x => log? x
  | .sqrt, x => sqrt? x
  | .reciprocal, x => div? 1 x
  | .double, x => mul? x (Scalar.ofNat 2)

inductive Toolbox where
  | matrices
  | numbers
  | commandLines
  deriving DecidableEq, Repr

inductive PlanSource where
  | table (plans : Nat) (mode : Mode) (depth : Int)
  | kept (id : Nat)
  | analysis (id : Nat)
  deriving BEq, Repr

structure PlanPlace where
  program : Nat
  source : PlanSource
  path : List Nat := []
  deriving BEq, Repr

def PlanPlace.below (place : PlanPlace) (i : Nat) : PlanPlace :=
  { place with path := place.path ++ [i] }

inductive Place where
  | collection (id : Nat)
  | counter (id : Nat)
  | relations (database : Nat)
  | params (database : Nat)
  | inputs (examples : Nat)
  | outputs (examples : Nat)
  | sums (gradients : Nat)
  | figures (gradients : Nat)
  | groups (theory : Nat)
  | plans (program plans : Nat)
  | parts (place : PlanPlace)
  | values (bindings : Nat)
  | ruleNames (program : Nat)
  | domains (program : Nat)
  | preferences (id : Nat)
  deriving BEq, Repr

inductive Value (α : Type) where
  | nothing
  | truth (b : Bool)
  | integer (n : Int)
  | number (x : α)
  | text (s : String)
  | list (items : List (Value α))
  | tuple (items : List (Value α))
  | dictionary (entries : List (Value α × Value α))
  | set (items : List String)
  | matrix (m : Matrix α)
  | dense (d : Dense α)
  | row (xs : List α)
  | mode (m : Mode)
  | goal (t : Term α)
  | rule (c : Clause α) (made : Bool)
  | lines (lines : List String)
  | elementwise (f : Elementwise)
  | thing (id : Nat)
  | view (place : Place)
  | plan (place : PlanPlace)
  | step (place : PlanPlace)
  | builtDatabase (builder : Nat)
  | toolbox (t : Toolbox)
  | named (kind : String)
  | described (printed shown : String)
  | variableFlow (name : String) (f : VariableFlow)
  | goalFlow (number : Nat) (g : GoalFlow) (mode : Option Mode)
  deriving Inhabited

inductive Undefined where
  | step | plan | node | formulary | schema
  deriving DecidableEq, Repr

structure System where
  database : Nat
  program : Nat
  formulary : Nat
  deriving DecidableEq, Repr

/-- Changes of parameters as a session collects them, under any keys. -/
structure Changes (α : Type) where
  sums : List (Value α × Value α) := []
  figures : Figures α := {}
  fitted : Bool := false
  deriving Inhabited

inductive Thing (α : Type) where
  | symbols (forms : Symbols) (names : List (Value α))
  | schema (s : Schema)
  | theory (dialect : Dialect) (groups : List (String × Nat))
  | database (db : Database α) (schema : Nat)
  | examples (e : Examples α)
  | plugins (p : Plugins)
  | program (p : Program) (theory plans : Nat) (database : Option Nat)
  | analysis (a : Analysis) (program : Nat)
  | learner (l : Learner α) (program regularizer : Nat)
  | regularizer (r : Regularizer α)
  | gradients (g : Changes α)
  | formulary (f : Formulary α) (program : Nat)
  | formulaLearner (epochs : Amount α) (formulary program : Nat)
  | builder (schema theory : Nat) (database : Option Nat)
  | system (s : System)
  | bindings (values : Dictionary String (Value α × Value α)) (database : Nat)
  | preferences (p : Preferences α)
  | console (program : Nat) (training testing : Option Nat) (answers : Value α)
  | experiment (configuration : Dictionary String (Value α))
  | lexicon (l : Lexicon)
  | undefined (kind : Undefined) (numbered : Bool)
  | draft (formulary : Nat) (mode : Mode)
  | plan (plans : Nat) (p : Plan)
  | plans (t : PlanTable)
  | collection (v : Value α)
  | rule (head : Option (Term α)) (body : Nat) (features generator : Option Nat) (made : Bool)
  deriving Inhabited

variable {α : Type}

def Value.isTrue [Scalar α] : Value α → Bool
  | .nothing => false
  | .truth b => b
  | .integer n => n != 0
  | .number x => !Scalar.isZero x
  | .text s => s != ""
  | .list items => !items.isEmpty
  | .tuple items => !items.isEmpty
  | .dictionary entries => !entries.isEmpty
  | .set items => !items.isEmpty
  | _ => true

def Value.whole? [Scalar α] : Value α → Option Int
  | .integer n => some n
  | .truth b => some (if b then 1 else 0)
  | .number x =>
    (integerPart? (toFloat x)).filter fun n => isZero (Scalar.ofInt n - x)
  | _ => none

def Value.truncated? [Scalar α] : Value α → Option Int
  | .integer n => some n
  | .truth b => some (if b then 1 else 0)
  | .number x => integerPart? (toFloat x)
  | _ => none

def Value.truth? [Scalar α] (v : Value α) : Option Bool :=
  match v.whole? with
  | some 0 => some false
  | some 1 => some true
  | _ => none

def Value.isKey : Value α → Bool
  | .list _ | .dictionary _ | .set _ | .matrix _ | .dense _ | .row _ | .view _ => false
  | .tuple items => items.attach.all fun ⟨v, _⟩ => v.isKey
  | _ => true

def matrixOutline (m : Matrix α) : String :=
  "<Compressed Sparse Row sparse matrix of dtype 'float32'\n\twith " ++ natural m.stored ++
    " stored elements and shape " ++ parenthesized [natural m.height, natural m.width] ++ ">"

/-- A printed matrix: its outline and stored entries, or their ends. -/
def matrixText [Scalar α] (m : Matrix α) : String :=
  let lines := m.entries.map fun (i, j, x) =>
    "  " ++ parenthesized [natural i, natural j] ++ "\t" ++ shortest (toFloat x)
  let kept := if lines.length ≤ 50 then lines
    else lines.take 25 ++ "  :\t:" :: lines.drop (lines.length - 25)
  if lines.isEmpty then matrixOutline m
  else matrixOutline m ++ "\n  Coords\tValues\n" ++ "\n".intercalate kept

mutual

def Value.shown [Scalar α] : Value α → String
  | .nothing => "None"
  | .truth b => if b then "True" else "False"
  | .integer n => Text.integer n
  | .number x => shortest (toFloat x)
  | .text s => quoted s
  | .list items => bracketed (Value.shownAll items)
  | .tuple items => parenthesized (Value.shownAll items)
  | .dictionary entries => "\x7b" ++ ", ".intercalate (Value.shownEntries entries) ++ "\x7d"
  | .set items => quotedSet items
  | .goal t => t.shown
  | .mode m => m.goal.shown
  | .rule c true => c.shown
  | .matrix m => matrixOutline m
  | .described _ shown => shown
  | .variableFlow name f => f.shown name
  | .goalFlow n g _ => g.shown n
  | _ => "<object>"

def Value.shownAll [Scalar α] : List (Value α) → List String
  | [] => []
  | v :: vs => v.shown :: Value.shownAll vs

def Value.shownEntries [Scalar α] : List (Value α × Value α) → List String
  | [] => []
  | (k, v) :: es => (k.shown ++ ": " ++ v.shown) :: Value.shownEntries es

end

/-- The form of a key: equal keys have one form, whole numbers are integers. -/
def Value.keyForm [Scalar α] : Value α → String
  | .tuple items => parenthesized (items.attach.map fun ⟨v, _⟩ => v.keyForm)
  | .mode m => "mode " ++ m.text
  | .thing id => "thing " ++ natural id
  | v => (v.whole?.map Text.integer).getD v.shown

/-- Whether two values are one key. Goals are told apart even if written alike. -/
def Value.isSameKey [Scalar α] (v w : Value α) : Bool :=
  match v, w with
  | .goal _, _ | _, .goal _ => false
  | v, w => v.keyForm == w.keyForm

def Value.printed [Scalar α] (d : Dialect) : Value α → String
  | .text s => s
  | .goal t => t.goal.text
  | .mode m => m.text
  | .rule c _ => c.text d
  | .matrix m => matrixText m
  | .lines _ => "<lines>"
  | .described printed _ => printed
  | .goalFlow _ g _ => g.text
  | v => v.shown

/-- The items of a list, the characters of a text, or keys. -/
def Value.items : Value α → Except Error (List (Value α))
  | .list items | .tuple items => .ok items
  | .text s => .ok (s.toList.map fun c => .text c.toString)
  | .lines written => .ok (written.map .text)
  | .dictionary entries => .ok (entries.map (·.1))
  | .set items => .ok (items.map .text)
  | _ => .error .illTyped

def Value.pair (v : Value α) : Except Error (Value α × Value α) := do
  match ← v.items with
  | [a, b] => return (a, b)
  | _ => throw .malformed

def Value.textual : Value α → Except Error String
  | .text s => .ok s
  | _ => .error .illTyped

def Value.sentence : Value α → Except Error String
  | .text s => .ok s
  | _ => .error .missingPart

mutual

def Value.datum [Scalar α] : Value α → Datum α
  | .nothing => .nothing
  | .truth b => .truth b
  | .integer n => .integer n
  | .number x => .number x
  | .text s => .text s
  | .list items => .list (Value.data items)
  | .tuple items => .tuple (Value.data items)
  | .dictionary entries => .dictionary (Value.namedData entries)
  | .mode m => .other "ModeDeclaration" m.text m.goal.shown
  | .goal t => .other "Goal" t.goal.text t.shown
  | .described printed shown => .other "object" printed shown
  | v => .other "object" v.shown v.shown

def Value.data [Scalar α] : List (Value α) → List (Datum α)
  | [] => []
  | v :: vs => v.datum :: Value.data vs

def Value.namedData [Scalar α] : List (Value α × Value α) → List (String × Datum α)
  | [] => []
  | (k, v) :: es => (match k with | .text s => s | k => k.shown, v.datum) :: Value.namedData es

end

def Value.amount [Scalar α] (v : Value α) : Amount α := .ofDatum v.datum

mutual

def Value.ofDatum : Datum α → Value α
  | .nothing => .nothing
  | .truth b => .truth b
  | .integer n => .integer n
  | .number x => .number x
  | .text s => .text s
  | .list items => .list (Value.ofData items)
  | .tuple items => .tuple (Value.ofData items)
  | .other _ printed shown => .described printed shown
  | .dictionary entries => .dictionary (Value.ofEntries entries)

def Value.ofData : List (Datum α) → List (Value α)
  | [] => []
  | d :: ds => Value.ofDatum d :: Value.ofData ds

def Value.ofEntries : List (String × Datum α) → List (Value α × Value α)
  | [] => []
  | (name, d) :: es => (.text name, Value.ofDatum d) :: Value.ofEntries es

end

namespace Value

def ofName : Option String → Value α
  | some s => .text s
  | none => .nothing

def ofNat (n : Nat) : Value α := .integer n

def ofTexts (items : List String) : Value α := .list (items.map .text)

def ofPredicate (p : Predicate) : Value α := .tuple [.text p.functor, .integer p.arity]

def ofMark (m : Mark α) : Value α := .tuple [ofDatum m.functor, ofDatum m.arity]

def ofOperand : Operand α → Value α
  | .matrix m => .matrix m
  | .datum d => ofDatum d

def operand [Scalar α] : Value α → Operand α
  | .matrix m => .matrix m
  | v => .datum v.datum

def ofRule [Scalar α] (r : Rule) : Value α := .rule (.ofRule r) false

def ofFigures (f : Figures α) : Value α :=
  .dictionary (f.entries.map fun (name, d) => (.text name, ofDatum d))

/-- The key of a figure: its name, or a pair for a statistic. -/
def ofCounterKey : CounterKey → Value α
  | .plain name => .text name
  | .statistic key which => .tuple [ofCounterKey key, .text which]

def ofCounter (c : Counter α) : Value α :=
  .dictionary (c.entries.map fun (key, x) => (ofCounterKey key, .number x))

def ofWeights (d : Dictionary (Option String) α) : Value α :=
  .dictionary (d.entries.map fun (name, x) => (ofName name, .number x))

def keyText [Scalar α] : Value α → String
  | .nothing => "None"
  | .text s => s
  | .integer n => Text.integer n
  | .mode m => m.text
  | .goal t => t.goal.text
  | .tuple items => "/".intercalate (items.attach.map fun ⟨v, _⟩ => keyText v)
  | v => v.shown

end Value

end BeliefLogic.Workbench
