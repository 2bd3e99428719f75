import BeliefLogic.Error
import BeliefLogic.Rule.Grammar

/-!
# Modes and type signatures

A mode says which arguments are given: `p/io` computes the second argument of `p` from the first.
-/

namespace BeliefLogic

/-- A mode of a relation. Loose modes may have constants for arguments. -/
structure Mode where
  goal : Goal
  deriving Repr, Inhabited

namespace Mode

def functor (m : Mode) : String := m.goal.functor

def args (m : Mode) : List String := m.goal.args

def arity (m : Mode) : Nat := m.goal.arity

def key (m : Mode) : String := m.goal.text

instance : BEq Mode := ⟨fun m n => m.key == n.key⟩

@[simp] theorem beq_iff_key_eq (m n : Mode) : (m == n) = true ↔ m.key = n.key := by
  simp only [BEq.beq, decide_eq_true_eq]

instance : EquivBEq Mode where
  rfl := by simp
  symm h := by simp_all
  trans h k := by simp_all

def text (m : Mode) : String :=
  m.functor ++ "/" ++ String.join m.args

def shown (m : Mode) : String := m.goal.shown

def isInput (m : Mode) (i : Nat) : Bool := m.args[i]? == some "i"

def isOutput (m : Mode) (i : Nat) : Bool := m.args[i]? == some "o"

def isConst (m : Mode) (i : Nat) : Bool := !m.isInput i && !m.isOutput i

def directions (m : Mode) : String :=
  String.join (m.args.map fun a => if a == "i" || a == "o" then a else "c")

def ofGoal (g : Goal) : Except Error Mode :=
  match g.args.find? fun a => a != "i" && a != "o" with
  | some a => .error (.refused (.modeArgument a g))
  | none => .ok ⟨g⟩

def parseLoose (s : String) : Except Error Mode :=
  match Grammar.parseGoal? s with
  | some g => .ok ⟨g⟩
  | none => .error .unreadable

def parseGoal (s : String) : Except Error Mode :=
  match Grammar.parseGoal? s with
  | some g => ofGoal g
  | none => .error .unreadable

def parse (s : String) : Except Error Mode :=
  if s.toList.contains '/' then
    match Text.fields '/' s with
    | [functor, rest] => ofGoal ⟨functor, rest.toList.map String.singleton⟩
    | _ => .error .malformed
  else parseGoal s

/-- Computes the second argument of a relation from the first. -/
def inputOutput (functor : String) : Mode := ⟨⟨functor, ["i", "o"]⟩⟩

end Mode

structure Signature where
  goal : Goal
  deriving DecidableEq, Repr, Inhabited

namespace Signature

def parse (s : String) : Except Error Signature :=
  match Grammar.parseGoal? s with
  | some g => .ok ⟨g⟩
  | none => .error .unreadable

def typeSet (s : Signature) : List String :=
  (s.goal.args.eraseDups).mergeSort fun a b => decide (a ≤ b)

end Signature

end BeliefLogic
