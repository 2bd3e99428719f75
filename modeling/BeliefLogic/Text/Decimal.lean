import BeliefLogic.Text.Blank
import BeliefLogic.Text.Classes

/-!
# Decimal text of numbers

Every decimal form is computed from an exact quotient. Reading gives sign, digits and exponent, so
nothing is rounded before a scalar type does so.
-/

namespace BeliefLogic.Text

inductive Numeral where
  | finite (negative : Bool) (num den : Nat)
  | infinite (negative : Bool)
  | undefined
  deriving DecidableEq, Repr

def significand (x : Float) : Nat × Int :=
  let bits := x.toBits.toNat
  let fraction : Nat := bits % Nat.pow 2 52
  let biased : Nat := bits / Nat.pow 2 52 % Nat.pow 2 11
  if biased == 0 then (fraction, -1074) else (Nat.pow 2 52 + fraction, (biased : Int) - 1075)

def Numeral.ofFloat (x : Float) : Numeral :=
  let negative := x.toBits.toNat / Nat.pow 2 63 == 1
  if x.isNaN then .undefined
  else if x.isInf then .infinite negative
  else
    let (m, e) := significand x
    if 0 ≤ e then .finite negative (m * Nat.pow 2 e.toNat) 1
    else .finite negative m (Nat.pow 2 (-e).toNat)

/-- A finite number without its places after the point. -/
def integerPart? (x : Float) : Option Int :=
  match Numeral.ofFloat x with
  | .finite negative num den => some (if negative then -(num / den : Nat) else (num / den : Nat))
  | _ => none

/-- The floor of a finite number, and 0 for any other. -/
def floor (x : Float) : Int :=
  match Numeral.ofFloat x with
  | .finite true num den => -((num + den - 1) / den : Nat)
  | .finite false num den => (num / den : Nat)
  | _ => 0

/-- A quotient rounded to the nearest, a half going to even. -/
def roundDiv (num den : Nat) : Nat :=
  let q := num / den
  let twice := 2 * (num % den)
  if twice < den then q
  else if den < twice then q + 1
  else if q % 2 == 0 then q else q + 1

def roundScaled (num den : Nat) (power : Int) : Nat :=
  if 0 ≤ power then roundDiv (num * Nat.pow 10 power.toNat) den
  else roundDiv num (den * Nat.pow 10 (-power).toNat)

def digits (n : Nat) : List Char :=
  Nat.toDigits 10 n

def leadingExponent (num den : Nat) : Int :=
  let guess : Int := (digits num).length - (digits den).length
  let atLeast := if 0 ≤ guess then den * Nat.pow 10 guess.toNat ≤ num
    else den ≤ num * Nat.pow 10 (-guess).toNat
  if atLeast then guess else guess - 1

/-- The first digits of a positive quotient, rounded, with the exponent. -/
def significant (count : Nat) (num den : Nat) : Nat × Int :=
  let e := leadingExponent num den
  let scaled := roundScaled num den ((count : Int) - 1 - e)
  if scaled == Nat.pow 10 count then (Nat.pow 10 (count - 1), e + 1) else (scaled, e)

def signText (negative : Bool) : String :=
  if negative then "-" else ""

def insertPoint (places : Nat) (n : Nat) : String :=
  let ds := digits n
  let ds := List.replicate (places + 1 - ds.length) '0' ++ ds
  let whole := String.ofList (ds.take (ds.length - places))
  if places == 0 then whole else whole ++ "." ++ String.ofList (ds.drop (ds.length - places))

def dropTrailingZeros (ds : List Char) : List Char :=
  (ds.reverse.dropWhile (· == '0')).reverse

def exponentText (e : Int) : String :=
  let ds := digits e.natAbs
  "e" ++ (if e < 0 then "-" else "+") ++
    String.ofList (List.replicate (2 - ds.length) '0' ++ ds)

def scientific (ds : List Char) (e : Int) : String :=
  match ds with
  | [] => "0" ++ exponentText e
  | [d] => String.singleton d ++ exponentText e
  | d :: rest => String.singleton d ++ "." ++ String.ofList rest ++ exponentText e

/-- Digits placed around the point, without an exponent. -/
def positional (ds : List Char) (e : Int) : String :=
  if e < 0 then
    "0." ++ String.ofList (List.replicate (-e - 1).toNat '0' ++ ds)
  else
    let whole := e.toNat + 1
    let left := ds.take whole ++ List.replicate (whole - ds.length) '0'
    let right := ds.drop whole
    if right.isEmpty then String.ofList left
    else String.ofList left ++ "." ++ String.ofList right

def fixed (places : Nat) (x : Float) : String :=
  match Numeral.ofFloat x with
  | .undefined => "nan"
  | .infinite negative => signText negative ++ "inf"
  | .finite negative num den =>
    signText negative ++ insertPoint places (roundScaled num den places)

/-- At most `count` significant digits, perhaps with an exponent. -/
def general (count : Nat) (x : Float) : String :=
  match Numeral.ofFloat x with
  | .undefined => "nan"
  | .infinite negative => signText negative ++ "inf"
  | .finite negative num den =>
    if num == 0 then signText negative ++ "0"
    else
      let (n, e) := significant count num den
      let ds := dropTrailingZeros (digits n)
      signText negative ++
        (if e < -4 || (count : Int) ≤ e then scientific ds e else positional ds e)

/-- The decimal with digits `n` and leading exponent `e`, as a quotient. -/
def decimalQuotient (n : Nat) (count : Nat) (e : Int) : Nat × Nat :=
  let power := e - count + 1
  if 0 ≤ power then (n * Nat.pow 10 power.toNat, 1) else (n, Nat.pow 10 (-power).toNat)

/-- Whether a decimal rounds to the double `m * 2 ^ e`. -/
def roundsTo (m : Nat) (e : Int) (num den : Nat) : Bool :=
  -- four times every quantity keeps the quarter gap below a power of two integral
  let (scaleNum, scaleDen) : Nat × Nat :=
    if 0 ≤ e then (Nat.pow 2 e.toNat, 1) else (1, Nat.pow 2 (-e).toNat)
  let below := if m == Nat.pow 2 52 && e != -1074 then 4 * m - 1 else 4 * m - 2
  let above := 4 * m + 2
  let value := 4 * num * scaleDen
  let low := below * scaleNum * den
  let high := above * scaleNum * den
  if m % 2 == 0 then low ≤ value && value ≤ high else low < value && value < high

/-- The fewest digits that determine a double, with the leading exponent. -/
def fewestDigits (m : Nat) (e : Int) (num den : Nat) : List Char × Int :=
  let found := (List.range 17).findSome? fun k =>
    let (n, lead) := significant (k + 1) num den
    let (a, b) := decimalQuotient n (k + 1) lead
    if roundsTo m e a b then some (dropTrailingZeros (digits n), lead) else none
  match found with
  | some r => r
  | none =>
    let (n, lead) := significant 17 num den
    (dropTrailingZeros (digits n), lead)

/-- The shortest text of a double, positional from 10^-4 to 10^16. -/
def shortest (x : Float) : String :=
  match Numeral.ofFloat x with
  | .undefined => "nan"
  | .infinite negative => signText negative ++ "inf"
  | .finite negative num den =>
    if num == 0 then signText negative ++ "0.0"
    else
      let (m, e) := significand x
      let (ds, lead) := fewestDigits m e num den
      signText negative ++
        (if lead < -4 || 16 ≤ lead then scientific ds lead
         else
          let text := positional ds lead
          if (ds.length : Int) ≤ lead + 1 then text ++ ".0" else text)

def integer (n : Int) : String :=
  signText (n < 0) ++ String.ofList (digits n.natAbs)

def natural (n : Nat) : String :=
  String.ofList (digits n)

def padded (width : Nat) (n : Nat) : String :=
  let ds := digits n
  String.ofList (List.replicate (width - ds.length) '0' ++ ds)

inductive Literal where
  | decimal (negative : Bool) (digits : Nat) (exponent : Int)
  | infinite (negative : Bool)
  | undefined
  deriving DecidableEq, Repr

/-- Digits with underscores between: how many, their value, and the rest. -/
def takeDigits : List Char → Nat → Nat → Nat × Nat × List Char
  | c :: '_' :: d :: cs, count, value =>
    match decimalValue? c with
    | none => (count, value, c :: '_' :: d :: cs)
    | some v =>
      if (decimalValue? d).isSome then takeDigits (d :: cs) (count + 1) (10 * value + v)
      else (count + 1, 10 * value + v, '_' :: d :: cs)
  | c :: cs, count, value =>
    match decimalValue? c with
    | none => (count, value, c :: cs)
    | some v => takeDigits cs (count + 1) (10 * value + v)
  | [], count, value => (count, value, [])

def takeSign : List Char → Bool × List Char
  | '-' :: cs => (true, cs)
  | '+' :: cs => (false, cs)
  | cs => (false, cs)

def readExponent? : List Char → Option Int
  | [] => some 0
  | c :: cs =>
    if c == 'e' || c == 'E' then
      let (negative, cs) := takeSign cs
      match takeDigits cs 0 0 with
      | (0, _, _) => none
      | (_, n, []) => some (if negative then -(n : Int) else n)
      | _ => none
    else none

/-- Drops blanks around a number, of which 28 to 31 count only outside ASCII. -/
def stripNumber (cs : List Char) : List Char :=
  let isSpace (c : Char) : Bool :=
    isBlank c && (!(28 ≤ c.toNat && c.toNat ≤ 31) || cs.any fun d => 128 ≤ d.toNat)
  ((cs.dropWhile isSpace).reverse.dropWhile isSpace).reverse

def readLiteral? (s : String) : Option Literal :=
  let (negative, cs) := takeSign (stripNumber s.toList)
  let word := String.ofList (cs.map Char.toLower)
  if word == "inf" || word == "infinity" then some (.infinite negative)
  else if word == "nan" then some .undefined
  else
    let (whole, n, rest) := takeDigits cs 0 0
    match rest with
    | '.' :: rest =>
      let (places, n, rest) := takeDigits rest 0 n
      if whole + places == 0 then none
      else (readExponent? rest).map fun e => .decimal negative n (e - places)
    | rest =>
      if whole == 0 then none
      else (readExponent? rest).map fun e => .decimal negative n e

def Literal.toFloat : Literal → Float
  | .undefined => 0.0 / 0.0
  | .infinite negative => if negative then -(1.0 / 0.0) else 1.0 / 0.0
  | .decimal negative n e =>
    let size : Int := (digits n).length
    let x : Float :=
      if n == 0 || e + size < -400 then 0.0
      else if 400 < e + size then 1.0 / 0.0
      else if 0 ≤ e then Float.ofScientific (n * Nat.pow 10 e.toNat) false 0
      else Float.ofScientific n true (-e).toNat
    if negative then -x else x

def greatestDigits : Nat := 4300

/-- Reads a whole number of not too many digits, between blanks. -/
def readInteger? (s : String) : Option Int :=
  let (negative, cs) := takeSign (stripNumber s.toList)
  match takeDigits cs 0 0 with
  | (0, _, _) => none
  | (k, n, []) =>
    if greatestDigits < k then none else some (if negative then -(n : Int) else n)
  | _ => none

end BeliefLogic.Text
