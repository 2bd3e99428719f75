import BeliefLogic.Studies.Basic

/-!
# Timings

A study sums up the times that another prover reports, and prints how many queries were answered in
a second.
-/

namespace BeliefLogic.Studies

open Workbench Run Text

variable {α : Type} [Scalar α]

def quotient (x y : α) : Except Error α :=
  if Scalar.isZero y then .error .divisionByZero else .ok (x / y)

def twoPlaces (x : α) : String := fixed 2 (Scalar.toFloat x)

def saySummary (total count : String) (average rate : α) : Studying α Unit := do
  let args := (← state).arguments
  let name ← lift (itemAt args 0)
  let threads ← lift (itemAt args 1)
  sayAll ["==", name, "threads", threads, "total", total, "n", count, "average",
    twoPlaces average, "qps", twoPlaces rate]

def queryTime (line : String) : Except Error (Option α) := do
  if !Text.startsWith "#" line then return none
  match fields '\t' (strip line) with
  | [_, _, time] =>
    match fields ' ' time with
    | [count, unit] =>
      if unit = "msec" then return some (← readNumber count) else .error (.refused .unstated)
    | _ => .error .malformed
  | _ => .error .malformed

def summarizeQueries : Studying α Unit := do
  let (n, total) ← overInput (fun (n, total) line => do
    match ← lift (queryTime (α := α) line) with
    | some t => return (n + 1, total + t)
    | none => return (n, total)) (0, (0 : α))
  let count : α := Scalar.ofNat n
  let rate ← lift (quotient (Scalar.ofNat 1000 * count) total)
  saySummary (figure total) (natural n) (total / count) rate

/-- The number of queries and the time in total, as far as they were told. -/
structure Totals where
  count : Option String := none
  time : Option String := none
  deriving DecidableEq, Repr

def afterColon (line : String) : Except Error String :=
  match Text.pieces ": " (strip line) with
  | [_, rest] => .ok rest
  | _ => .error .malformed

def Totals.read (t : Totals) (line : String) : Except Error Totals := do
  if Text.contains "Total items:" line then return { t with count := some (← afterColon line) }
  else if Text.contains "Query-answering" line then
    return { t with time := some (← afterColon line) }
  else return t

def known : Option String → Except Error String
  | some s => .ok s
  | none => .error .undefinedName

def summarizeTotals : Studying α Unit := do
  let t ← overInput (fun (t : Totals) line => lift (t.read line)) {}
  let count ← lift (known t.count)
  let n : α ← lift (readNumber count)
  let time ← lift (known t.time)
  let seconds : α := (← lift (readNumber time)) / Scalar.ofNat 1000
  let rate ← lift (quotient n seconds)
  let average ← lift (do quotient (← readNumber time) n)
  saySummary time count average rate

end BeliefLogic.Studies
