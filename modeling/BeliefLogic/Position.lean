import BeliefLogic.Error

/-!
# Positions

Positions in a sequence may be given from the end: -1 is the last one.
-/

namespace BeliefLogic

def position? (length : Nat) (i : Int) : Option Nat :=
  let k := if i < 0 then i + length else i
  if 0 ≤ k ∧ k < length then some k.toNat else none

def itemAt {β : Type} (xs : List β) (i : Int) : Except Error β :=
  match (position? xs.length i).bind fun k => xs[k]? with
  | some x => .ok x
  | none => .error .outOfRange

@[simp] theorem position?_natCast {length i : Nat} (h : i < length) :
    position? length i = some i := by
  have : ¬ ((i : Int) < 0) := by omega
  simp [position?, this, h]

end BeliefLogic
