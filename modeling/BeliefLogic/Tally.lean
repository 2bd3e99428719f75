/-!
# Tallies

The sum of a list of counts.
-/

namespace BeliefLogic

def tally : List Nat → Nat
  | [] => 0
  | n :: ns => n + tally ns

@[simp] theorem tally_cons (n : Nat) (ns : List Nat) : tally (n :: ns) = n + tally ns := rfl

end BeliefLogic
