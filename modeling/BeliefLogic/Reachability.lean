/-!
# Reachability

Links between numbered places are kept as a set of places for each place, in the bits of a number.
-/

namespace BeliefLogic

abbrev Links := List Nat

namespace Links

def identity (size : Nat) : Links := (List.range size).map fun i => 1 <<< i

def targets (l : Links) (row : Nat) : Nat :=
  l.zipIdx.foldl (fun set (next, j) => if row.testBit j then set ||| next else set) 0

def compose (l m : Links) : Links := l.map (targets m)

def either (l m : Links) : Links := (l.zip m).map fun (a, b) => a ||| b

/-- Follows links a number of times, new ones in the next round. -/
def follow : Nat → Links → Links → Links
  | 0, _, found => found
  | n + 1, walk, found =>
    let walk := compose walk found
    follow n walk (either found walk)

def reach (rounds : Nat) (l : Links) : Links := follow rounds (identity l.length) l

end Links

end BeliefLogic
