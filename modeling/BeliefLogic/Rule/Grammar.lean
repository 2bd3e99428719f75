import BeliefLogic.Rule.Basic

/-!
# Reading goals and rules

Blanks before a token are skipped, and an optional part that fails leaves the text where it was.
-/

namespace BeliefLogic.Grammar

abbrev Reader (β : Type) := List Char → Option (β × List Char)

def isSpace (c : Char) : Bool :=
  c == ' ' || c == '\n' || c == '\t' || c == '\r'

def skip (cs : List Char) : List Char :=
  cs.dropWhile isSpace

/-- Plain atoms are made of letters, digits, underscores and dollar signs. -/
def isAtomChar (c : Char) : Bool :=
  c.isAlphanum || c == '_' || c == '$'

def token (t : String) : Reader Unit := fun cs =>
  (Text.dropLeading? t.toList (skip cs)).map fun rest => ((), rest)

def plainAtom : Reader String := fun cs =>
  let cs := skip cs
  match cs.takeWhile isAtomChar with
  | [] => none
  | w => some (String.ofList w, cs.dropWhile isAtomChar)

def unescape : Char → Char
  | 't' => '\t'
  | 'n' => '\n'
  | 'f' => Char.ofNat 12
  | 'r' => '\r'
  | c => c

/-- The characters up to the closing quote; a backslash escapes the next one. -/
def quotedTail : List Char → Option (List Char × List Char)
  | [] => none
  | '\'' :: cs => some ([], cs)
  | '\\' :: c :: cs =>
    if c = '\n' then none else (quotedTail cs).map fun (w, rest) => (unescape c :: w, rest)
  | c :: cs =>
    if c = '\n' || c = '\r' || c = '\\' then none
    else (quotedTail cs).map fun (w, rest) => (c :: w, rest)

def quotedAtom : Reader String := fun cs =>
  match skip cs with
  | '\'' :: cs => (quotedTail cs).map fun (w, rest) => (String.ofList w, rest)
  | _ => none

def atom : Reader String := fun cs =>
  plainAtom cs <|> quotedAtom cs

def moreItems {β : Type} (sep : String) (item : Reader β) (cs : List Char) : List β × List Char :=
  match (token sep cs).bind fun (_, rest) => item rest with
  | none => ([], cs)
  | some (x, rest) =>
    if _h : rest.length < cs.length then
      let (xs, rest) := moreItems sep item rest
      (x :: xs, rest)
    else ([x], rest)
termination_by cs.length

/-- Items between separators. Only after a single item are blanks passed over. -/
def itemList {β : Type} (sep : String) (item : Reader β) : Reader (List β) := fun cs =>
  (item cs).map fun (x, rest) =>
    match moreItems sep item rest with
    | ([], rest) => ([x], skip rest)
    | (xs, rest) => (x :: xs, rest)

def arguments : Reader (List String) := fun cs => do
  let (_, cs) ← token "(" cs
  let (args, cs) ← itemList "," atom cs
  let (_, cs) ← token ")" cs
  return (args, cs)

/-- A goal; without a complete argument list it is a name alone. -/
def goal : Reader Goal := fun cs => do
  let (functor, cs) ← atom cs
  match arguments cs with
  | some (args, rest) => return (⟨functor, args⟩, rest)
  | none => return (⟨functor, []⟩, skip cs)

def goalSeparator : Dialect → String
  | .clause => ","
  | .operator => "&"

def goals (d : Dialect) : Reader (List Goal) :=
  itemList (goalSeparator d) goal

/-- Goals, or none, where the text goes on with the next token. -/
def optionalGoals (d : Dialect) (cs : List Char) : List Goal × List Char :=
  (goals d cs).getD ([], skip cs)

def goalsAfter (t : String) (d : Dialect) (cs : List Char) : Option (List Goal) × List Char :=
  match (token t cs).bind fun (_, rest) => goals d rest with
  | some (gs, rest) => (some gs, rest)
  | none => (none, skip cs)

/-- The feature block of a rule: features and their generator. -/
def featureBlock : (d : Dialect) → Reader (List Goal × Option (List Goal))
  | .clause => fun cs => do
    let (_, cs) ← token "\x7b" cs
    let (features, cs) ← goals .clause cs
    let (generator, cs) := goalsAfter ":" .clause cs
    let (_, cs) ← token "\x7d" cs
    return ((features, generator), cs)
  | .operator => fun cs => do
    let (_, cs) ← token "//" cs
    let (features, cs) ← goals .operator cs
    let (generator, cs) := goalsAfter "|" .operator cs
    return ((features, generator), cs)

def neck : Dialect → String
  | .clause => ":-"
  | .operator => "<="

def rule (d : Dialect) : Reader Rule := fun cs => do
  let (head, cs) ← goal cs
  let (_, cs) ← token (neck d) cs
  let (body, cs) := optionalGoals d cs
  let (block, cs) : Option (List Goal × Option (List Goal)) × List Char :=
    match featureBlock d cs with
    | some (b, rest) => (some b, rest)
    | none => (none, skip cs)
  let r : Rule :=
    { head := some head, body := body, features := block.map (·.1),
      generator := block.bind (·.2) }
  match d with
  | .operator => return (r, cs)
  | .clause =>
    let (_, cs) ← token "." cs
    return (r, cs)

/-- A rule found in a text, with its positions. -/
structure Found where
  rule : Rule
  start : Nat
  stop : Nat
  deriving Repr

/-- All rules from a position on. Where none starts, a character is passed over. -/
def scan (d : Dialect) (pos : Nat) (cs : List Char) : List Found :=
  let blanks := (cs.takeWhile isSpace).length
  match _hs : skip cs with
  | [] => []
  | c :: tail =>
    match rule d (c :: tail) with
    | none => scan d (pos + blanks + 1) tail
    | some (r, rest) =>
      if _h : rest.length < (c :: tail).length then
        let stop := pos + blanks + ((c :: tail).length - rest.length)
        ⟨r, pos + blanks, stop⟩ :: scan d stop rest
      else scan d (pos + blanks + 1) tail
termination_by cs.length
decreasing_by
  all_goals
    have hle : (skip cs).length ≤ cs.length := (List.dropWhile_sublist _).length_le
    simp only [_hs, List.length_cons] at *
    omega

def prepare (s : String) : List Char :=
  Text.expandTabs s.toList

def parseGoal? (s : String) : Option Goal :=
  (goal (prepare s)).map (·.1)

def parseGoals (d : Dialect) (s : String) : List Goal :=
  (optionalGoals d (prepare s)).1

def parseRule? (d : Dialect) (s : String) : Option Rule :=
  (rule d (prepare s)).map (·.1)

def parseQuery? (d : Dialect) (s : String) : Option Rule :=
  (parseRule? d ("dummy :- " ++ s ++ "\n")).map fun r => { r with head := none }

end BeliefLogic.Grammar
