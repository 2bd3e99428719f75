import BeliefLogic.Text.Decimal
import BeliefLogic.Text.Letter
import BeliefLogic.Text.Quoted

/-!
# Goals and rules

A rule derives its head from goals. It may carry features, which weigh each proof, and a generator.
There are two dialects: `p(X,Y) :- q(X,Y) {f(X)}.` and `p(X,Y) <= q(X,Y) // f(X)`.
-/

namespace BeliefLogic

open Text

/-- A relation applied to arguments. -/
structure Goal where
  functor : String
  args : List String
  deriving DecidableEq, Repr, Inhabited

namespace Goal

def arity (g : Goal) : Nat := g.args.length

/-- A goal as rules write it; a goal without arguments is its name alone. -/
def text (g : Goal) : String :=
  if g.args.isEmpty then g.functor else g.functor ++ "(" ++ ",".intercalate g.args ++ ")"

def shown (g : Goal) : String :=
  "Goal(" ++ quoted g.functor ++ "," ++ quotedList g.args ++ ")"

/-- Name and arity, under which the rules for a relation are filed. -/
def key (g : Goal) : String :=
  g.functor ++ "/" ++ natural g.arity

end Goal

def isVariableName (atom : String) : Bool :=
  match atom.toList with
  | [] => false
  | c :: _ => isUpper c || c == '_'

/-- How rules are written. -/
inductive Dialect where
  | clause
  | operator
  deriving DecidableEq, Repr, Inhabited

/-- A head, a body, features and a generator. -/
structure Rule where
  head : Option Goal
  body : List Goal
  /-- Goals that weigh a proof, if the rule has a feature block. -/
  features : Option (List Goal) := none
  generator : Option (List Goal) := none
  deriving DecidableEq, Repr, Inhabited

namespace Rule

def headText (r : Rule) : String :=
  match r.head with
  | some g => g.text
  | none => "None"

/-- Goals between separators after a text, or nothing. -/
def goalsText (opening sep closing : String) : Option (List Goal) → String
  | none => ""
  | some [] => ""
  | some (g :: gs) => opening ++ sep.intercalate ((g :: gs).map Goal.text) ++ closing

/-- A rule in a dialect. A generator is shown only with features. -/
def text (r : Rule) : Dialect → String
  | .clause =>
    r.headText ++ " :- " ++ ", ".intercalate (r.body.map Goal.text) ++
      goalsText " \x7b" "," (goalsText " : " "," "" r.generator ++ "\x7d") r.features ++ "."
  | .operator =>
    r.headText ++ " <= " ++ " & ".intercalate (r.body.map Goal.text) ++
      goalsText " // " " & " (goalsText " | " " & " "" r.generator) r.features

end Rule

end BeliefLogic
