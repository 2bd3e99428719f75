import BeliefLogic.Error
import BeliefLogic.Tally

/-!
# Theories

A theory files rules under name and arity of their heads, in the order in which they came.
-/

namespace BeliefLogic

/-- Rules in groups by relation. -/
structure Theory where
  dialect : Dialect
  groups : List (String × List Rule) := []
  deriving DecidableEq, Repr, Inhabited

namespace Theory

/-- Adds a rule at the end of its group, or in a new group. -/
def fileUnder (key : String) (r : Rule) : List (String × List Rule) → List (String × List Rule)
  | [] => [(key, [r])]
  | (k, rs) :: rest =>
    if k = key then (k, rs ++ [r]) :: rest else (k, rs) :: fileUnder key r rest

def add (t : Theory) (r : Rule) : Except Error Theory :=
  match r.head with
  | some g => .ok { t with groups := fileUnder g.key r t.groups }
  | none => .error .noHead

def rules (t : Theory) : List Rule := t.groups.flatMap (·.2)

def size (t : Theory) : Nat := tally (t.groups.map (·.2.length))

def rulesFor? (t : Theory) (key : String) : Option (List Rule) :=
  (t.groups.find? (·.1 = key)).map (·.2)

def listing (t : Theory) : String :=
  String.join (t.groups.map fun (key, rs) =>
    "('% rules for', " ++ Text.quoted key ++ ")\n" ++
      String.join (rs.map fun r => r.text t.dialect ++ "\n"))

/-- Whether rules agree one by one, as far as the shorter theory goes. -/
def agrees (t u : Theory) : Bool :=
  (t.rules.zip u.rules).all fun (r, s) => r.text .operator == s.text .operator

def serialize (t : Theory) : String :=
  String.join (t.rules.map fun r => r.text .operator ++ "\n")

end Theory

end BeliefLogic
