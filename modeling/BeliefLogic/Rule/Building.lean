import BeliefLogic.Datum

/-!
# Putting rules together

Rules are put together by the operators of `head <= goal & goal // feature | generator`.
-/

namespace BeliefLogic

open Text

/-- A goal of a rule in the making, whose parts need not be texts. -/
structure Term (α : Type) where
  functor : Datum α
  args : List (Datum α)
  applied : Bool := true
  deriving Repr

namespace Term

variable {α : Type} [Scalar α]

def ofGoal (g : Goal) : Term α := ⟨.text g.functor, g.args.map .text, false⟩

def goal (t : Term α) : Goal := ⟨t.functor.printed, t.args.map (·.printed)⟩

/-- A term as reports show it: applied arguments are shown in parentheses. -/
def shown (t : Term α) : String :=
  let args := t.args.map (·.shown)
  "Goal(" ++ t.functor.shown ++ "," ++
    (if t.applied then parenthesized args else bracketed args) ++ ")"

end Term

structure Clause (α : Type) where
  head : Option (Term α) := none
  body : List (Term α) := []
  features : Option (List (Term α)) := none
  generator : Option (List (Term α)) := none
  deriving Repr, Inhabited

namespace Clause

variable {α : Type} [Scalar α]

def rule (c : Clause α) : Rule where
  head := c.head.map (·.goal)
  body := c.body.map (·.goal)
  features := c.features.map fun ts => ts.map (·.goal)
  generator := c.generator.map fun ts => ts.map (·.goal)

def ofRule (r : Rule) : Clause α where
  head := r.head.map .ofGoal
  body := r.body.map .ofGoal
  features := r.features.map fun gs => gs.map .ofGoal
  generator := r.generator.map fun gs => gs.map .ofGoal

/-- The names in a text, which other characters separate. -/
def names (s : String) : List String :=
  go s.toList []
where
  go : List Char → List Char → List String
    | [], name => [String.ofList name.reverse]
    | c :: cs, name =>
      if isWordChar c then go cs (c :: name)
      else if (cs.head?.map isWordChar).getD true then String.ofList name.reverse :: go cs []
      else go cs name

/-- A relation, of which only the first name counts, applied to arguments. -/
def ofRelation (written : String) (args : List (Datum α)) : Clause α where
  body := [⟨.text ((names written).headD ""), args, true⟩]

/-- The name of a rule as a feature: a variable that is assigned the name. -/
def ofRuleName (type : Datum α) (name : String) : Except Error (Clause α) :=
  match name.toList with
  | [] => .error .outOfRange
  | c :: cs =>
    let v : Datum α := .text (upper (String.singleton c) ++ String.ofList cs)
    .ok { features := some [⟨.text "weight", [v], false⟩]
          generator := some [⟨.text "assign", [v, .text name, type], false⟩] }

def ofRuleNames (type : Datum α) (written : String) : Except Error (List (Clause α)) :=
  (names written).mapM (ofRuleName type)

def join : Option (List (Term α)) → Option (List (Term α)) → Option (List (Term α))
  | none, ts => ts
  | ss, none => ss
  | some ss, some ts => some (ss ++ ts)

def conj (a b : Clause α) : Clause α where
  body := a.body ++ b.body
  features := join a.features b.features
  generator := join a.generator b.generator

/-- The goals of one part as features over those of the other. -/
def ranging (a b : Clause α) : Clause α where
  features := some a.body
  generator := some b.body

def weighed (a b : Clause α) : Clause α :=
  if (b.features.getD []).isEmpty then { body := a.body, features := some b.body }
  else { body := a.body, features := b.features, generator := b.generator }

def text (c : Clause α) (d : Dialect) : String := c.rule.text d

/-- Derives a single goal from a body. The dialect is that of the refusal. -/
def derived (d : Dialect) (a b : Clause α) : Except Error (Clause α) :=
  match a.body with
  | [head] => .ok { b with head := some head }
  | _ => .error (.refused (.clauseSyntax (a.text d) "<=" (b.text d)))

def shownTerms (ts : Option (List (Term α))) : String :=
  (ts.map fun ts => bracketed (ts.map (·.shown))).getD "None"

def shown (c : Clause α) : String :=
  "RuleWrapper(" ++ (c.head.map (·.shown)).getD "None" ++ "," ++ shownTerms (some c.body) ++
    ",features=" ++ shownTerms c.features ++ ",findall=" ++ shownTerms c.generator

end Clause

end BeliefLogic
