import BeliefLogic.Datum
import BeliefLogic.Dictionary

/-!
# Counters

Merged counters keep the total, the least, the greatest and the mean figure under each name.
-/

namespace BeliefLogic

inductive CounterKey where
  | plain (name : String)
  | statistic (key : CounterKey) (which : String)
  deriving DecidableEq, Repr, Inhabited

abbrev Figures (α : Type) := Dictionary String (Datum α)

abbrev Counter (α : Type) := Dictionary CounterKey α

namespace Counter

variable {α : Type} [Scalar α]

def ofFigures (f : Figures α) : Counter α :=
  ⟨f.entries.filterMap fun (name, d) => d.number?.map fun x => (.plain name, x)⟩

/-- The figure under a key; there is a zero where nothing was counted. -/
def figure (c : Counter α) (key : CounterKey) : α := (c.get? key).getD 0

def add (c : Counter α) (key : CounterKey) (x : α) : Counter α := c.change key 0 (· + x)

def least (a b : α) : α := if b < a then b else a

def greatest (a b : α) : α := if a < b then b else a

def count (c : Counter α) : Except Error α :=
  match c.get? (.plain "n") with
  | some n => .ok n
  | none => .error .notFound

def mergeFigure (n : α) (merged : Counter α) (key : CounterKey) (x : α) : Counter α :=
  let merged := (merged.add (.statistic key "tot") x).add (.statistic key "_wtot") (n * x)
  let merged := merged.change (.statistic key "min") Scalar.greatest (least · x)
  merged.change (.statistic key "max") Scalar.leastPositive (greatest · x)

def mergeOne (merged c : Counter α) : Except Error (Counter α) :=
  let merged := merged.add (.plain "counters") 1
  c.entries.foldlM (fun merged (key, x) => return mergeFigure (← c.count) merged key x) merged

/-- Turns a weighted total into a mean, and adds it to the last one. -/
def settle (total : α) (merged : Counter α) (key : CounterKey) : Except Error (Counter α) :=
  if Scalar.isZero total then .error .divisionByZero
  else
    let mean := merged.figure (.statistic key "_wtot") / total
    .ok ((merged.add (.statistic key "avg") mean).erase (.statistic key "_wtot"))

def mergeInto (start : Counter α) (counters : List (Counter α)) : Except Error (Counter α) := do
  let merged ← counters.foldlM mergeOne start
  let total : CounterKey := .statistic (.plain "n") "tot"
  let merged : Counter α := merged.change total 0 id
  (counters.flatMap Dictionary.keys).eraseDups.foldlM (settle (merged.figure total)) merged

def merge (counters : List (Counter α)) : Except Error (Counter α) := mergeInto {} counters

end Counter

end BeliefLogic
