import BeliefLogic.CommandLine.Expression.Token

/-!
# Expressions

One function for each level of binding reads an expression; a few dozen units of fuel a token
suffice.
-/

namespace BeliefLogic

inductive Collection where
  | list
  | set
  | dictionary
  deriving DecidableEq, Repr, Inhabited

inductive Expression where
  | whole (n : Nat)
  | literal (x : Text.Literal)
  | text (s : String)
  | template (parts : List (Bool × Expression))
  | name (s : String)
  | list (items : List Expression)
  | tuple (items : List Expression)
  | set (items : List Expression)
  | dictionary (entries : List Expression)
  | entry (key value : Expression)
  | spread (items : Expression)
  | merged (entries : Expression)
  | named (name : String) (value : Expression)
  | unary (operator : String) (value : Expression)
  | binary (operator : String) (left right : Expression)
  | comparison (first : Expression) (others : List (String × Expression))
  | both (left right : Expression)
  | either (left right : Expression)
  | negation (value : Expression)
  | choice (condition yes no : Expression)
  | part (value : Expression) (name : String)
  | call (function : Expression) (arguments : List Expression)
  | item (value place : Expression)
  | slice (value : Expression) (first last step : Option Expression)
  | collect (kind : Collection) (value : Expression)
      (loops : List (List String × Expression × List Expression))
  | function (params : List String) (body : Expression)
  deriving Inhabited

namespace Expression

abbrev Reading (β : Type) := StateT (List Token) Option β

def take : Reading Token := fun ts => match ts with
  | t :: ts => some (t, ts)
  | [] => none

def acceptToken (t : Token) : Reading Bool := fun ts => match ts with
  | u :: rest => if u = t then some (true, rest) else some (false, ts)
  | [] => some (false, [])

def accept (m : String) : Reading Bool := acceptToken (.mark m)

def acceptWord (w : String) : Reading Bool := acceptToken (.word w)

def acceptAny : List String → Reading (Option String)
  | [] => pure none
  | m :: ms => do if ← accept m then return some m else acceptAny ms

def expect (m : String) : Reading Unit := do
  if !(← accept m) then failure

def expectWord (w : String) : Reading Unit := do
  if !(← acceptWord w) then failure

def reserved : List String :=
  ["if", "else", "and", "or", "not", "in", "is", "for", "lambda", "async", "await", "yield", "from",
    "import", "def", "class", "return", "while", "try", "with", "pass", "del", "assert", "raise"]

def takeName : Reading String := do
  match ← take with
  | .word w => if reserved.contains w then failure else return w
  | _ => failure

def acceptName : Reading (Option String) := fun ts => match ts with
  | .word w :: .mark "=" :: rest => some (some w, rest)
  | ts => some (none, ts)

def acceptComparison : Reading (Option String) := do
  if let some op ← acceptAny ["<", ">", "==", ">=", "<=", "!="] then return some op
  if ← acceptWord "in" then return some "in"
  if ← acceptWord "is" then
    if ← acceptWord "not" then return some "is not" else return some "is"
  fun ts => match ts with
    | .word "not" :: .word "in" :: rest => some (some "not in", rest)
    | ts => some (none, ts)

def levels : List (List String) :=
  [["|"], ["^"], ["&"], ["<<", ">>"], ["+", "-"], ["*", "//", "/", "%"]]

def takeNames : Nat → Reading (List String)
  | 0 => failure
  | fuel + 1 => do
    let w ← takeName
    if ← accept "," then return w :: (← takeNames fuel) else return [w]

mutual

def readWhole : Nat → Reading Expression
  | 0 => failure
  | fuel + 1 => do
    if ← acceptWord "lambda" then
      if ← accept ":" then return .function [] (← readWhole fuel)
      let params ← takeNames fuel
      expect ":"
      return .function params (← readWhole fuel)
    let a ← readEither fuel
    if ← acceptWord "if" then
      let condition ← readEither fuel
      expectWord "else"
      return .choice condition a (← readWhole fuel)
    return a

def readEither : Nat → Reading Expression
  | 0 => failure
  | fuel + 1 => do
    let a ← readBoth fuel
    if ← acceptWord "or" then return .either a (← readEither fuel) else return a

def readBoth : Nat → Reading Expression
  | 0 => failure
  | fuel + 1 => do
    let a ← readNegation fuel
    if ← acceptWord "and" then return .both a (← readBoth fuel) else return a

def readNegation : Nat → Reading Expression
  | 0 => failure
  | fuel + 1 => do
    if ← acceptWord "not" then return .negation (← readNegation fuel)
    let a ← readLevel fuel levels
    match ← readComparisons fuel with
    | [] => return a
    | others => return .comparison a others

def readComparisons : Nat → Reading (List (String × Expression))
  | 0 => failure
  | fuel + 1 => do
    match ← acceptComparison with
    | some op =>
      let a ← readLevel fuel levels
      return (op, a) :: (← readComparisons fuel)
    | none => return []

def readLevel : Nat → List (List String) → Reading Expression
  | 0, _ => failure
  | fuel + 1, [] => readSigned fuel
  | fuel + 1, ops :: rest => do readOperands fuel ops rest (← readLevel fuel rest)

def readOperands : Nat → List String → List (List String) → Expression → Reading Expression
  | 0, _, _, _ => failure
  | fuel + 1, ops, rest, a => do
    match ← acceptAny ops with
    | some op => readOperands fuel ops rest (.binary op a (← readLevel fuel rest))
    | none => return a

def readSigned : Nat → Reading Expression
  | 0 => failure
  | fuel + 1 => do
    match ← acceptAny ["+", "-", "~"] with
    | some op => return .unary op (← readSigned fuel)
    | none =>
      let a ← readTrailers fuel (← readOperand fuel)
      if ← accept "**" then return .binary "**" a (← readSigned fuel) else return a

/-- What follows a value: parts, arguments, and places of items. -/
def readTrailers : Nat → Expression → Reading Expression
  | 0, _ => failure
  | fuel + 1, a => do
    match ← acceptAny [".", "(", "["] with
    | some "." => readTrailers fuel (.part a (← takeName))
    | some "(" => readTrailers fuel (.call a (← readArguments fuel))
    | some _ => readTrailers fuel (← readPlace fuel a)
    | none => return a

/-- The place of an item, or the ends of a slice. -/
def readPlace : Nat → Expression → Reading Expression
  | 0, _ => failure
  | fuel + 1, a => do
    let first ← readEnd fuel
    if ← accept ":" then
      let last ← readEnd fuel
      let step ← if ← accept ":" then readEnd fuel else pure none
      expect "]"
      return .slice a first last step
    expect "]"
    match first with
    | some e => return .item a e
    | none => failure

def readEnd : Nat → Reading (Option Expression)
  | 0 => failure
  | fuel + 1 => fun ts => match ts with
    | .mark ":" :: _ | .mark "]" :: _ => some (none, ts)
    | ts => (readWhole fuel ts).map fun (e, rest) => (some e, rest)

def readArguments : Nat → Reading (List Expression)
  | 0 => failure
  | fuel + 1 => do
    if ← accept ")" then return []
    let a ← if ← accept "**" then readForm .merged fuel
      else if ← accept "*" then readForm .spread fuel
      else match ← acceptName with
        | some w => readForm (.named w) fuel
        | none => do
          let a ← readWhole fuel
          match ← readLoops fuel with
          | [] => pure a
          | loops => pure (.collect .list a loops)
    if ← accept "," then return a :: (← readArguments fuel)
    expect ")"
    return [a]

def readForm (form : Expression → Expression) : Nat → Reading Expression
  | 0 => failure
  | fuel + 1 => return form (← readWhole fuel)

def readLoops : Nat → Reading (List (List String × Expression × List Expression))
  | 0 => failure
  | fuel + 1 => do
    if ← acceptWord "for" then
      let bracketed ← accept "("
      let names ← takeNames fuel
      if bracketed then expect ")"
      expectWord "in"
      let source ← readEither fuel
      let conditions ← readConditions fuel
      return (names, source, conditions) :: (← readLoops fuel)
    return []

def readConditions : Nat → Reading (List Expression)
  | 0 => failure
  | fuel + 1 => do
    if ← acceptWord "if" then
      let e ← readEither fuel
      return e :: (← readConditions fuel)
    return []

/-- Items up to a closing mark, and whether there is a comma. -/
def readItems : Nat → String → Reading (List Expression × Bool)
  | 0, _ => failure
  | fuel + 1, closing => do
    if ← accept closing then return ([], false)
    let a ← if ← accept "*" then readForm .spread fuel
      else if ← accept "**" then readForm .merged fuel
      else do
        let a ← readWhole fuel
        if closing == "\x7d" then
          if ← accept ":" then pure (.entry a (← readWhole fuel)) else pure a
        else pure a
    if ← accept "," then
      let (others, _) ← readItems fuel closing
      return (a :: others, true)
    match ← readLoops fuel with
    | [] =>
      expect closing
      return ([a], false)
    | loops =>
      expect closing
      return ([.collect .list a loops], false)

def readOperand : Nat → Reading Expression
  | 0 => failure
  | fuel + 1 => do
    match ← take with
    | .whole n => return .whole n
    | .literal x => return .literal x
    | .text s => readTexts fuel [(false, .text s)]
    | .template parts => readTexts fuel (← readParts fuel parts)
    | .word w => if reserved.contains w then failure else return .name w
    | .mark "(" =>
      match ← readItems fuel ")" with
      | ([a], false) => return a
      | (items, _) => return .tuple items
    | .mark "[" =>
      match (← readItems fuel "]").1 with
      | [.collect .list a loops] => return .collect .list a loops
      | items => return .list items
    | .mark "\x7b" =>
      match (← readItems fuel "\x7d").1 with
      | [] => return .dictionary []
      | [.collect .list (.entry k v) loops] => return .collect .dictionary (.entry k v) loops
      | [.collect .list a loops] => return .collect .set a loops
      | .entry k v :: items => return .dictionary (.entry k v :: items)
      | .merged e :: items => return .dictionary (.merged e :: items)
      | items => return .set items
    | .mark _ => failure

def readTexts : Nat → List (Bool × Expression) → Reading Expression
  | 0, _ => failure
  | fuel + 1, done => fun ts => match ts with
    | .text s :: rest => readTexts fuel (done ++ [(false, .text s)]) rest
    | .template parts :: rest => do
      let (parts, _) ← readParts fuel parts []
      readTexts fuel (done ++ parts) rest
    | ts => match done with
      | [(_, .text s)] => some (.text s, ts)
      | done => some (.template done, ts)

def readParts : Nat → List TemplatePart → Reading (List (Bool × Expression))
  | 0, _ => failure
  | _, [] => return []
  | fuel + 1, .text s :: parts => return (false, .text s) :: (← readParts fuel parts)
  | fuel + 1, .hole s quoted :: parts => do
    let tokens ← Token.ofText? s
    match readWhole fuel tokens with
    | some (e, []) => return (quoted, e) :: (← readParts fuel parts)
    | _ => failure

end

def ofText? (s : String) : Option Expression := do
  let tokens ← Token.ofText? s
  match ← readWhole (32 * (s.length + 2)) tokens with
  | (e, []) => some e
  | _ => none

end Expression

end BeliefLogic
