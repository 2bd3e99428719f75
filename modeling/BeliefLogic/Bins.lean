/-!
# Small sets of numbers

Up to four numbers share eight bins and are listed bin by bin; more numbers stay in order.
-/

namespace BeliefLogic.Bins

def count : Nat := 8

def free (taken : List Nat) : Nat → Nat → Nat
  | 0, b => b
  | fuel + 1, b => if taken.contains b then free taken fuel ((5 * b + 1) % count) else b

def place (e : Nat × Nat) : List (Nat × Nat) → List (Nat × Nat)
  | [] => [e]
  | x :: xs => if e.1 < x.1 then e :: x :: xs else x :: place e xs

/-- Numbers bin by bin, added as they come. -/
def assign : List Nat → List (Nat × Nat) → List (Nat × Nat)
  | [], placed => placed
  | n :: ns, placed => assign ns (place (free (placed.map (·.1)) count (n % count), n) placed)

def listed (ns : List Nat) : List Nat :=
  if 4 < ns.length then ns else (assign ns []).map (·.2)

example : listed [1, 3, 7] = [1, 3, 7] := by decide

example : listed [4, 6, 8] = [8, 4, 6] ∧ listed [0, 3, 8] = [0, 8, 3] := by decide

end BeliefLogic.Bins
