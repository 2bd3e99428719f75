import BeliefLogic.CommandLine.Expression.Basic
import BeliefLogic.Learning.Learner

/-!
# Values of expressions

Whole numbers stay whole under the operators that keep them whole.
-/

namespace BeliefLogic

open Text Scalar

inductive Chosen (α : Type) where
  | nothing
  | truth (b : Bool)
  | integer (n : Int)
  | number (x : α)
  | text (s : String)
  | list (items : List (Chosen α))
  | tuple (items : List (Chosen α))
  | set (items : List (Chosen α))
  | choices (entries : List (Chosen α × Chosen α))
  | regularizer (r : Regularizer α)
  | known (name : String)
  | method (value : Chosen α) (name : String)
  | function (params : List String) (body : Expression) (scope : List (String × Chosen α))
  deriving Inhabited

namespace Chosen

abbrev Entries (α : Type) := List (Chosen α × Chosen α)

variable {α : Type} [Scalar α]

def integer? : Chosen α → Option Int
  | .integer n => some n
  | .truth b => some (if b then 1 else 0)
  | _ => none

def number? : Chosen α → Option α
  | .number x => some x
  | c => c.integer?.map Scalar.ofInt

def isTrue : Chosen α → Bool
  | .nothing => false
  | .truth b => b
  | .integer n => n != 0
  | .number x => !Scalar.isZero x
  | .text s => s != ""
  | .list items | .tuple items | .set items => !items.isEmpty
  | .choices entries => !entries.isEmpty
  | .regularizer _ | .known _ | .method _ _ | .function _ _ _ => true

def items? : Chosen α → Option (List (Chosen α))
  | .list items | .tuple items | .set items => some items
  | .text s => some (s.toList.map fun c => .text c.toString)
  | .choices entries => some (entries.map (·.1))
  | _ => none

mutual

def shown : Chosen α → String
  | .nothing => "None"
  | .truth b => if b then "True" else "False"
  | .integer n => Text.integer n
  | .number x => shortest (toFloat x)
  | .text s => quoted s
  | .list items => bracketed (shownAll items)
  | .tuple items => parenthesized (shownAll items)
  | .set [] => "set()"
  | .set items => "\x7b" ++ ", ".intercalate (shownAll items) ++ "\x7d"
  | .choices entries => "\x7b" ++ ", ".intercalate (shownEntries entries) ++ "\x7d"
  | .regularizer _ | .known _ | .method _ _ | .function _ _ _ => "<object>"

def shownAll : List (Chosen α) → List String
  | [] => []
  | c :: cs => shown c :: shownAll cs

def shownEntries : Entries α → List String
  | [] => []
  | (k, c) :: es => (shown k ++ ": " ++ shown c) :: shownEntries es

end

def printed : Chosen α → String
  | .text s => s
  | c => c.shown

def datum : Chosen α → Datum α
  | .nothing => .nothing
  | .truth b => .truth b
  | .integer n => .integer n
  | .number x => .number x
  | .text s => .text s
  | .list items => .list (items.attach.map fun ⟨c, _⟩ => c.datum)
  | .tuple items => .tuple (items.attach.map fun ⟨c, _⟩ => c.datum)
  | .choices entries =>
    .dictionary (entries.attach.map fun ⟨(k, c), h⟩ =>
      have : sizeOf c < 1 + sizeOf entries := by
        have := List.sizeOf_lt_of_mem h
        simp at this
        omega
      (k.printed, c.datum))
  | .set items => .other "set" (shown (.set items)) (shown (.set items))
  | .regularizer _ | .known _ | .method _ _ | .function _ _ _ => .other "object" "<object>" "<object>"

def agrees : Nat → Chosen α → Chosen α → Bool
  | 0, _, _ => false
  | fuel + 1, a, b =>
    match a, b with
    | .nothing, .nothing => true
    | .text s, .text t => s == t
    | .list xs, .list ys | .tuple xs, .tuple ys =>
      xs.length == ys.length && (xs.zip ys).all fun (x, y) => agrees fuel x y
    | .set xs, .set ys =>
      xs.length == ys.length && xs.all fun x => ys.any (agrees fuel x)
    | .choices es, .choices fs =>
      es.length == fs.length && es.all fun (k, c) => fs.any fun (l, d) =>
        agrees fuel k l && agrees fuel c d
    | .known m, .known n => m == n
    | a, b =>
      match a.integer?, b.integer?, a.number?, b.number? with
      | some m, some n, _, _ => m == n
      | _, _, some x, some y => isZero (x - y)
      | _, _, _, _ => false

def depth : Nat := 64

instance : BEq (Chosen α) := ⟨agrees depth⟩

def precedes? : Nat → Chosen α → Chosen α → Option Bool
  | 0, _, _ => none
  | fuel + 1, a, b =>
    match a, b with
    | .text s, .text t => some (decide (s < t))
    | .list xs, .list ys | .tuple xs, .tuple ys =>
      match (xs.zip ys).find? fun (x, y) => !(x == y) with
      | some (x, y) => precedes? fuel x y
      | none => some (decide (xs.length < ys.length))
    | a, b =>
      match a.integer?, b.integer?, a.number?, b.number? with
      | some m, some n, _, _ => some (decide (m < n))
      | _, _, some x, some y => some (decide (x < y))
      | _, _, _, _ => none

def before? (a b : Chosen α) : Option Bool := precedes? depth a b

def isIn? (a b : Chosen α) : Option Bool :=
  match a, b with
  | .text s, .text t => some (s == "" || (Text.pieces s t).length != 1)
  | _, .text _ => none
  | a, b => b.items?.map (·.contains a)

/-- Whether two values are one and the same, as far as that can be told. -/
def isSame (a b : Chosen α) : Bool :=
  match a, b with
  | .truth x, .truth y => x == y
  | .truth _, _ | _, .truth _ => false
  | .integer m, .integer n => m == n
  | .integer _, _ | _, .integer _ => false
  | a, b => a == b

def compare? (op : String) (a b : Chosen α) : Option Bool :=
  match op with
  | "==" => some (a == b)
  | "!=" => some (!(a == b))
  | "<" => before? a b
  | ">" => before? b a
  | "<=" => do return (← before? a b) || a == b
  | ">=" => do return (← before? b a) || a == b
  | "in" => isIn? a b
  | "not in" => (isIn? a b).map not
  | "is" => some (isSame a b)
  | "is not" => some (!isSame a b)
  | _ => none

def combine (whole : Int → Int → Option (Chosen α)) (real : α → α → Option (Chosen α))
    (a b : Chosen α) : Option (Chosen α) :=
  match a.integer?, b.integer? with
  | some m, some n => whole m n
  | _, _ => do real (← a.number?) (← b.number?)

def greatestExponent : Nat := 20000

/-- A power, with a whole exponent or of a positive number. -/
def power (a b : Chosen α) : Option (Chosen α) := do
  let x ← a.number?
  let y ← b.number?
  let exponent := match b with
    | .number y => (integerPart? (toFloat y)).filter fun n =>
        isZero (Scalar.ofInt n - y)
    | b => b.integer?
  let some e := exponent |
    if 0 < x then return .number (Scalar.exp (y * Scalar.log x)) else none
  if greatestExponent < e.natAbs then none
  match a.integer?, b.integer? with
  | some m, some _ => if 0 ≤ e then return .integer (Int.pow m e.toNat) else pure ()
  | _, _ => pure ()
  let y := (List.replicate e.natAbs x).foldl (· * ·) 1
  if 0 ≤ e then return .number y
  else if isZero y then none
  else return .number (1 / y)

/-- The bits that two integers share, in two's complement. -/
def sharedBits (m n : Int) : Int :=
  let rest (n : Int) : Nat := (-n - 1).toNat
  if 0 ≤ m then
    if 0 ≤ n then Nat.land m.toNat n.toNat
    else (m.toNat - Nat.land m.toNat (rest n) : Nat)
  else if 0 ≤ n then (n.toNat - Nat.land n.toNat (rest m) : Nat)
  else -(Nat.lor (rest m) (rest n) : Int) - 1

def allBits (m n : Int) : Int := -sharedBits (-m - 1) (-n - 1) - 1

/-- Works on two integers, or on two truth values. -/
def onBits (f : Int → Int → Int) (a b : Chosen α) : Option (Chosen α) :=
  match a, b with
  | .truth x, .truth y =>
    some (.truth (f (if x then 1 else 0) (if y then 1 else 0) != 0))
  | a, b => do return .integer (f (← a.integer?) (← b.integer?))

def repeated {β : Type} (n : Int) (items : List β) : List β :=
  (List.replicate n.toNat items).flatten

def merge (entries : Entries α) : Chosen α :=
  .choices (Dictionary.ofList entries).entries

def distinct (items : List (Chosen α)) : List (Chosen α) :=
  items.foldl (fun found c => if found.contains c then found else found ++ [c]) []

def filled : List Char → List (Chosen α) → Option String
  | [], [] => some ""
  | [], _ => none
  | '%' :: '%' :: cs, values => (filled cs values).map ("%" ++ ·)
  | '%' :: 's' :: cs, v :: values => (filled cs values).map (v.printed ++ ·)
  | '%' :: 'r' :: cs, v :: values => (filled cs values).map (v.shown ++ ·)
  | '%' :: 'd' :: cs, v :: values => do
    let n ← v.integer?
    return Text.integer n ++ (← filled cs values)
  | '%' :: _, _ => none
  | c :: cs, values => (filled cs values).map (c.toString ++ ·)

def operate (op : String) (a b : Chosen α) : Option (Chosen α) :=
  let floored (x : α) : α := Scalar.ofInt (Text.floor (toFloat x))
  let nonzero (y : α) (c : Chosen α) : Option (Chosen α) :=
    if isZero y then none else some c
  match op, a, b with
  | "+", .text s, .text t => some (.text (s ++ t))
  | "+", .list xs, .list ys => some (.list (xs ++ ys))
  | "+", .tuple xs, .tuple ys => some (.tuple (xs ++ ys))
  | "+", a, b => combine (fun m n => some (.integer (m + n))) (fun x y => some (.number (x + y))) a b
  | "-", .set xs, .set ys => some (.set (xs.filter fun x => !ys.contains x))
  | "-", a, b => combine (fun m n => some (.integer (m - n))) (fun x y => some (.number (x - y))) a b
  | "*", .text s, n | "*", n, .text s =>
    n.integer?.map fun n => .text (String.ofList (repeated n s.toList))
  | "*", .list xs, n | "*", n, .list xs => n.integer?.map fun n => .list (repeated n xs)
  | "*", .tuple xs, n | "*", n, .tuple xs => n.integer?.map fun n => .tuple (repeated n xs)
  | "*", a, b => combine (fun m n => some (.integer (m * n))) (fun x y => some (.number (x * y))) a b
  | "/", a, b =>
    let quotient (x y : α) : Option (Chosen α) := nonzero y (.number (x / y))
    combine (fun m n => quotient (Scalar.ofInt m) (Scalar.ofInt n)) quotient a b
  | "//", a, b =>
    combine (fun m n => if n = 0 then none else some (.integer (m.fdiv n)))
      (fun x y => nonzero y (.number (floored (x / y)))) a b
  | "%", .text s, .tuple items => (filled s.toList items).map .text
  | "%", .text s, b => (filled s.toList [b]).map .text
  | "%", a, b =>
    combine (fun m n => if n = 0 then none else some (.integer (m.fmod n)))
      (fun x y => nonzero y (.number (x - y * floored (x / y)))) a b
  | "**", a, b => power a b
  | "|", .choices es, .choices fs => some (merge (es ++ fs))
  | "|", .set xs, .set ys => some (.set (distinct (xs ++ ys)))
  | "|", a, b => onBits allBits a b
  | "&", .set xs, .set ys => some (.set (xs.filter ys.contains))
  | "&", a, b => onBits sharedBits a b
  | "^", .set xs, .set ys =>
    some (.set (xs.filter (fun x => !ys.contains x) ++ ys.filter fun y => !xs.contains y))
  | "^", a, b => onBits (fun m n => allBits m n - sharedBits m n) a b
  | "<<", a, b => do
    let n ← b.integer?
    if n < 0 ∨ (greatestExponent : Int) < n then none
    return .integer ((← a.integer?) * Int.pow 2 n.toNat)
  | ">>", a, b => do
    let n ← b.integer?
    if n < 0 ∨ (greatestExponent : Int) < n then none
    return .integer ((← a.integer?).fdiv (Int.pow 2 n.toNat))
  | _, _, _ => none

def operateAlone (op : String) (a : Chosen α) : Option (Chosen α) :=
  match op, a with
  | "-", .number x => some (.number (-x))
  | "-", a => a.integer?.map fun n => .integer (-n)
  | "+", .number x => some (.number x)
  | "+", a => a.integer?.map .integer
  | "~", a => a.integer?.map fun n => .integer (-n - 1)
  | _, _ => none

/-- The position that an integer names; a negative one counts from the end. -/
def position? (length : Nat) (n : Int) : Option Nat :=
  let i := if n < 0 then n + length else n
  if 0 ≤ i ∧ i < length then some i.toNat else none

def item? (a place : Chosen α) : Option (Chosen α) :=
  match a with
  | .choices entries => (entries.find? fun e => e.1 == place).map (·.2)
  | .list _ | .tuple _ | .text _ => do
    let items ← a.items?
    items[← position? items.length (← place.integer?)]?
  | _ => none

def positions (first last step : Int) : Nat → List Int
  | 0 => []
  | fuel + 1 =>
    if (0 < step ∧ first < last) ∨ (step < 0 ∧ last < first) then
      first :: positions (first + step) last step fuel
    else []

def sliced {β : Type} (items : List β) (first last step : Option Int) : Option (List β) :=
  let step := step.getD 1
  let length : Int := items.length
  let low : Int := if step < 0 then -1 else 0
  let high : Int := if step < 0 then length - 1 else length
  let clip (n : Int) : Int :=
    let n := if n < 0 then n + length else n
    if n < low then low else if high < n then high else n
  if step = 0 then none
  else
    let first := (first.map clip).getD (if step < 0 then high else low)
    let last := (last.map clip).getD (if step < 0 then low else high)
    some ((positions first last step (items.length + 1)).filterMap fun i => items[i.toNat]?)

def slice? (a : Chosen α) (first last step : Option Int) : Option (Chosen α) :=
  match a with
  | .list items => (sliced items first last step).map .list
  | .tuple items => (sliced items first last step).map .tuple
  | .text s => (sliced s.toList first last step).map fun cs => .text (String.ofList cs)
  | _ => none

end Chosen

end BeliefLogic
