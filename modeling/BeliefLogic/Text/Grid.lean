import BeliefLogic.Text.Decimal

/-!
# Grids of numbers

Numbers have one width and at most eight places, or all have exponents. Of more than a thousand
numbers only the corners are shown.
-/

namespace BeliefLogic.Text

def padLeft (width : Nat) (s : String) : String :=
  String.ofList (List.replicate (width - s.length) ' ') ++ s

def padRight (width : Nat) (s : String) : String :=
  s ++ String.ofList (List.replicate (width - s.length) ' ')

def widest (texts : List String) : Nat := (texts.map String.length).foldl max 0

/-- What stands before and after the point, with at most eight places. -/
def pointParts (x : Float) : String × String :=
  let exact := shortest x
  let places (s : String) : String := ((fields '.' s).getD 1 "")
  let text :=
    if exact.toList.contains 'e' || 8 < (places exact).length then fixed 8 x else exact
  (((fields '.' text).headD ""), String.ofList (dropTrailingZeros (places text).toList))

def exponentParts (x : Float) : String × String × Int :=
  match Numeral.ofFloat x with
  | .finite negative num den =>
    let (ds, e) : List Char × Int :=
      if num == 0 then (['0'], 0)
      else
        let (m, p) := significand x
        let (ds, lead) := fewestDigits m p num den
        if ds.length ≤ 9 then (ds, lead)
        else
          let (n, lead) := significant 9 num den
          (dropTrailingZeros (digits n), lead)
    (signText negative ++ String.ofList (ds.take 1), String.ofList (ds.drop 1), e)
  | _ => (shortest x, "", 0)

def paddedExponent (width : Nat) (e : Int) : String :=
  let ds := digits e.natAbs
  "e" ++ (if e < 0 then "-" else "+") ++
    String.ofList (List.replicate (width - ds.length) '0' ++ ds)

def needsExponents (xs : List Float) : Bool :=
  let sizes := (xs.filter fun x => x != 0.0).map Float.abs
  match sizes with
  | [] => false
  | s :: rest =>
    let greatest := rest.foldl (fun a b => if a < b then b else a) s
    let least := rest.foldl (fun a b => if b < a then b else a) s
    greatest ≥ 1e8 || least < 1e-4 || greatest / least > 1000.0

inductive GridStyle where
  | point (left right : Nat)
  | exponent (places digits : Nat)
  deriving DecidableEq, Repr

namespace GridStyle

def ofNumbers (xs : List Float) : GridStyle :=
  if needsExponents xs then
    let parts := xs.map exponentParts
    .exponent (widest (parts.map (·.2.1)))
      ((parts.map fun (_, _, e) => (digits e.natAbs).length).foldl max 2)
  else
    let parts := xs.map pointParts
    .point (widest (parts.map (·.1))) (widest (parts.map (·.2)))

def write (style : GridStyle) (x : Float) : String :=
  if !x.isFinite then shortest x
  else match style with
    | .point left right =>
      let (a, b) := pointParts x
      padLeft left a ++ "." ++ padRight right b
    | .exponent places width =>
      let (d, ds, e) := exponentParts x
      d ++ "." ++ ds ++ String.ofList (List.replicate (places - ds.length) '0') ++
        paddedExponent width e

end GridStyle

def wholeGrid : Nat := 1000

def ends {β : Type} (xs : List β) : List β :=
  if xs.length ≤ 6 then xs else xs.take 3 ++ xs.drop (xs.length - 3)

def endsMarked {β : Type} (mark : β) (xs : List β) : List β :=
  if xs.length ≤ 6 then xs else xs.take 3 ++ mark :: xs.drop (xs.length - 3)

/-- A row of texts in so many brackets. Long lines are broken. -/
def gridRow (depth : Nat) (texts : List String) : String :=
  let indent := String.ofList (List.replicate depth ' ')
  let (done, line) := texts.zipIdx.foldl (fun (done, line) (word, i) =>
    let line := if i = 0 then line else line ++ " "
    if 75 < line.length + word.length + depth then
      (done ++ String.ofList ((line.toList.reverse.dropWhile (· == ' ')).reverse) ++ "\n",
        indent ++ word)
    else (done, line ++ word)) ("", indent)
  "[" ++ String.ofList ((done ++ line).toList.drop depth) ++ "]"

def gridRows (rows : List String) : String := "[" ++ "\n ".intercalate rows ++ "]"

/-- A grid of numbers. Of a large grid only the corners are shown. -/
def grid (rows : List (List Float)) : String :=
  let all := rows.flatten
  if all.isEmpty then "[]"
  else
    let large := wholeGrid < all.length
    let seen := if large then (ends rows).flatMap ends else all
    let style := GridStyle.ofNumbers (seen.filter Float.isFinite)
    let width := widest (seen.map style.write)
    let row (r : List Float) : String :=
      let texts := r.map fun x => padLeft width (style.write x)
      gridRow 2 (if large then endsMarked "..." texts else texts)
    gridRows (if large then endsMarked "..." (rows.map row) else rows.map row)

def gridLine (xs : List Float) : String :=
  let large := wholeGrid < xs.length
  let seen := if large then ends xs else xs
  let style := GridStyle.ofNumbers (seen.filter Float.isFinite)
  let width := widest (seen.map style.write)
  let texts := xs.map fun x => padLeft width (style.write x)
  gridRow 1 (if large then endsMarked "..." texts else texts)

def integerGrid (rows : List (List Int)) : String :=
  let width := widest (rows.flatten.map integer)
  gridRows (rows.map fun r => gridRow 2 (r.map fun n => padLeft width (integer n)))

end BeliefLogic.Text
