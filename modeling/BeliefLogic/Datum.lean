import BeliefLogic.Scalar

/-!
# Plain data

Choices and arguments may be data of any kind; what a datum counts for is decided at its use.
-/

namespace BeliefLogic

open Text Scalar

inductive Datum (α : Type) where
  | nothing
  | truth (b : Bool)
  | integer (n : Int)
  | number (x : α)
  | text (s : String)
  | list (items : List (Datum α))
  | tuple (items : List (Datum α))
  | dictionary (entries : List (String × Datum α))
  | other (kind printed shown : String)
  deriving Repr, Inhabited

namespace Datum

variable {α : Type} [Scalar α]

def isTrue : Datum α → Bool
  | .nothing => false
  | .truth b => b
  | .integer n => n != 0
  | .number x => !Scalar.isZero x
  | .text s => s != ""
  | .list items => !items.isEmpty
  | .tuple items => !items.isEmpty
  | .dictionary entries => !entries.isEmpty
  | .other _ _ _ => true

/-- The integer that a datum counts for as a position or count. -/
def integer? : Datum α → Option Int
  | .integer n => some n
  | .truth b => some (if b then 1 else 0)
  | _ => none

def whole? : Datum α → Option Int
  | .number x =>
    let n := Text.floor (toFloat x)
    if isFinite x && isZero (x - Scalar.ofInt n) then some n else none
  | d => d.integer?

def number? : Datum α → Option α
  | .number x => some x
  | d => d.integer?.map Scalar.ofInt

/-- The bound of a datum: a number, the only item of a list, or none. -/
def bound? : Datum α → Except Error (Option α)
  | .nothing => .ok none
  | .text s => .error (.notFactor s.length)
  | .list [d] | .tuple [d] => (d.number?.map fun x => .ok (some x)).getD (.error .illTyped)
  | .list _ | .tuple _ => .error .malformed
  | d => (d.number?.map fun x => .ok (some x)).getD (.error .illTyped)

/-- The greatest integer that is not greater than the number of a datum. -/
def floor? : Datum α → Option Int
  | .number x => some (Text.floor (toFloat x))
  | d => d.integer?

def ceiling? : Datum α → Option Int
  | .number x => some (-Text.floor (-toFloat x))
  | d => d.integer?

mutual

def shown : Datum α → String
  | .nothing => "None"
  | .truth b => if b then "True" else "False"
  | .integer n => Text.integer n
  | .number x => shortest (toFloat x)
  | .text s => quoted s
  | .list items => bracketed (shownAll items)
  | .tuple items => parenthesized (shownAll items)
  | .dictionary entries => "\x7b" ++ ", ".intercalate (shownEntries entries) ++ "\x7d"
  | .other _ _ shown => shown

def shownAll : List (Datum α) → List String
  | [] => []
  | d :: ds => shown d :: shownAll ds

def shownEntries : List (String × Datum α) → List String
  | [] => []
  | (name, d) :: es => (quoted name ++ ": " ++ shown d) :: shownEntries es

end

def kind : Datum α → String
  | .nothing => "NoneType"
  | .truth _ => "bool"
  | .integer _ => "int"
  | .number _ => "float"
  | .text _ => "str"
  | .list _ => "list"
  | .tuple _ => "tuple"
  | .dictionary _ => "dict"
  | .other kind _ _ => kind

mutual

/-- Whether two data are the same key. Lists and dictionaries are no keys. -/
def agrees : Datum α → Datum α → Bool
  | .nothing, .nothing => true
  | .text s, .text t => s == t
  | .tuple xs, .tuple ys => agreesAll xs ys
  | .other kind _ shown, .other kind' _ shown' => kind == kind' && shown == shown'
  | d, e =>
    match d.number?, e.number? with
    | some x, some y => isZero (x - y)
    | _, _ => false

def agreesAll : List (Datum α) → List (Datum α) → Bool
  | [], [] => true
  | d :: ds, e :: es => agrees d e && agreesAll ds es
  | _, _ => false

end

/-- A printed datum: a text as it is, else as reports show it. -/
def printed : Datum α → String
  | .text s => s
  | .other _ printed _ => printed
  | d => d.shown

end Datum

inductive Amount (α : Type) where
  | whole (n : Int)
  | real (x : α)
  | written (s : String)
  | other (d : Datum α)
  deriving Repr, Inhabited

namespace Amount

variable {α : Type} [Scalar α]

def ofDatum (d : Datum α) : Amount α :=
  match d with
  | .integer n => .whole n
  | .truth b => .whole (if b then 1 else 0)
  | .number x => .real x
  | .text s => .written s
  | d => .other d

def datum : Amount α → Datum α
  | .whole n => .integer n
  | .real x => .number x
  | .written s => .text s
  | .other d => d

/-- The number of rounds that a figure counts; a negative one counts none. -/
def rounds : Amount α → Except Error Nat
  | .whole n => .ok n.toNat
  | _ => .error .illTyped

def number : Amount α → Except Error α
  | .whole n => .ok (Scalar.ofInt n)
  | .real x => .ok x
  | .written _ | .other _ => .error .illTyped

/-- The number by which a matrix is scaled. A list or tuple does not fit. -/
def factor : Amount α → Except Error α
  | .written s => .error (.notFactor s.length)
  | .other (.list _) | .other (.tuple _) => .error .malformed
  | .other d => .error (.unfit "*" "float" d.kind)
  | a => a.number

end Amount

end BeliefLogic
