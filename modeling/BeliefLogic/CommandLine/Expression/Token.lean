import BeliefLogic.Text.Decimal

/-!
# Tokens of expressions

A written expression is cut into names, numbers, quoted texts and marks.
-/

namespace BeliefLogic

/-- A part of a quoted text: the text itself, or an expression in braces. -/
inductive TemplatePart where
  | text (s : String)
  | hole (s : String) (quoted : Bool)
  deriving Inhabited, DecidableEq, Repr

inductive Token where
  | word (s : String)
  | whole (n : Nat)
  | literal (x : Text.Literal)
  | text (s : String)
  | template (parts : List TemplatePart)
  | mark (s : String)
  deriving Inhabited, DecidableEq, Repr

namespace Token

def digits? (base : Nat) (cs : List Char) : Option Nat :=
  if cs.isEmpty then none
  else cs.foldlM (fun n c => do
    let d ← if c.isDigit then some (c.toNat - '0'.toNat)
      else if 'a' ≤ c ∧ c ≤ 'z' then some (c.toNat - 'a'.toNat + 10)
      else none
    if d < base then some (base * n + d) else none) 0

def escape? (c : Char) : Option (List Char) :=
  [('\\', ['\\']), ('\'', ['\'']), ('"', ['"']), ('n', ['\n']), ('t', ['\t']), ('r', ['\r']),
    ('a', ['\x07']), ('b', ['\x08']), ('f', ['\x0c']), ('v', ['\x0b']), ('\n', [])].lookup c

def escapeWidth? (c : Char) : Option Nat := [('x', 2), ('u', 4), ('U', 8)].lookup c

/-- What a backslash and what follows it stand for, and the rest. -/
def takeEscape (c : Char) (cs : List Char) : Option (List Char × List Char) :=
  match escapeWidth? c with
  | some width => do
    if cs.length < width then none
    let n ← digits? 16 ((cs.take width).map Char.toLower)
    some ([Char.ofNat n], cs.drop width)
  | none =>
    let octal := ((c :: cs).take 3).takeWhile fun c => '0' ≤ c ∧ c ≤ '7'
    match digits? 8 octal with
    | some n => some ([Char.ofNat n], (c :: cs).drop octal.length)
    | none => some ((escape? c).getD ['\\', c], cs)

/-- A text up to the closing quotes. Only three quotes hold several lines. -/
def takeQuoted (raw : Bool) (closing : List Char) : Nat → List Char → Option (List Char × List Char)
  | 0, _ => none
  | _, [] => none
  | _, ['\\'] => none
  | fuel + 1, c :: cs =>
    if closing.isPrefixOf (c :: cs) then some ([], (c :: cs).drop closing.length)
    else if c = '\n' && closing.length = 1 then none
    else match c, cs with
      | '\\', d :: cs =>
        if raw then (takeQuoted raw closing fuel cs).map fun (s, rest) => ('\\' :: d :: s, rest)
        else do
          let (found, cs) ← takeEscape d cs
          let (s, rest) ← takeQuoted raw closing fuel cs
          return (found ++ s, rest)
      | c, cs => (takeQuoted raw closing fuel cs).map fun (s, rest) => (c :: s, rest)

/-- The parts of a text with expressions in braces, which may be doubled. -/
def templateParts : Nat → List Char → List Char → Option (List TemplatePart)
  | 0, _, _ => none
  | _, [], done => some [.text (String.ofList done.reverse)]
  | fuel + 1, '\x7b' :: '\x7b' :: cs, done => templateParts fuel cs ('\x7b' :: done)
  | fuel + 1, '\x7d' :: '\x7d' :: cs, done => templateParts fuel cs ('\x7d' :: done)
  | fuel + 1, '\x7b' :: cs, done => do
    let inner := cs.takeWhile (· ≠ '\x7d')
    let '\x7d' :: rest := cs.drop inner.length | none
    let (written, quoted) := match inner.reverse with
      | 'r' :: '!' :: inner => (inner.reverse, true)
      | 's' :: '!' :: inner => (inner.reverse, false)
      | _ => (inner, false)
    let parts ← templateParts fuel rest []
    return .text (String.ofList done.reverse) :: .hole (String.ofList written) quoted :: parts
  | _, '\x7d' :: _, _ => none
  | fuel + 1, c :: cs, done => templateParts fuel cs (c :: done)

def takeText (letters : String) (quote : Char) (cs : List Char) : Option (Token × List Char) := do
  let closing := if cs.take 2 = [quote, quote] then [quote, quote, quote] else [quote]
  let (s, rest) ← takeQuoted (letters == "r") closing (cs.length + 1) (cs.drop (closing.length - 1))
  match letters with
  | "" | "r" | "u" => some (.text (String.ofList s), rest)
  | "f" => return (.template (← templateParts (s.length + 1) s []), rest)
  | _ => none

/-- The characters of a number. A sign belongs to it only after an exponent mark. -/
def takeNumber (based : Bool) : List Char → List Char × List Char
  | c :: d :: cs =>
    if !based && (c = 'e' || c = 'E') && (d = '+' || d = '-') then
      let (s, rest) := takeNumber based cs
      (c :: d :: s, rest)
    else if c.isAlphanum || c = '_' || c = '.' then
      let (s, rest) := takeNumber based (d :: cs)
      (c :: s, rest)
    else ([], c :: d :: cs)
  | [c] => if c.isAlphanum || c = '_' || c = '.' then ([c], []) else ([], [c])
  | [] => ([], [])

def number? (cs : List Char) : Option Token :=
  let cs := (cs.map Char.toLower).filter (· ≠ '_')
  match cs with
  | '0' :: 'x' :: cs => (digits? 16 cs).map .whole
  | '0' :: 'o' :: cs => (digits? 8 cs).map .whole
  | '0' :: 'b' :: cs => (digits? 2 cs).map .whole
  | cs => match digits? 10 cs with
    | some n => if cs.head? = some '0' ∧ n ≠ 0 then none else some (.whole n)
    | none => (Text.readLiteral? (String.ofList cs)).map .literal

def pairs : List String := ["**", "//", "<<", ">>", "<=", ">=", "==", "!=", ":="]

def scan : Nat → List Char → Option (List Token)
  | _, [] => some []
  | 0, _ => none
  | fuel + 1, c :: cs =>
    let next (t : Token) (rest : List Char) : Option (List Token) :=
      (scan fuel rest).map (t :: ·)
    if [' ', '\t', '\n', '\r', '\x0c'].contains c then scan fuel cs
    else if c = '#' then scan fuel (cs.dropWhile (· ≠ '\n'))
    else if c = '\'' || c = '"' then do
      let (t, rest) ← takeText "" c cs
      next t rest
    else if c.isDigit || c = '.' && (cs.head?.any Char.isDigit) then do
      let based := c = '0' && (cs.head?.any fun d => d.toLower = 'x')
      let (s, rest) := takeNumber based (c :: cs)
      next (← number? s) rest
    else if c.isAlpha || c = '_' then do
      let inside (c : Char) : Bool := c.isAlphanum || c = '_'
      let name := String.ofList (c :: cs.takeWhile inside)
      match cs.dropWhile inside with
      | quote :: rest =>
        if quote = '\'' || quote = '"' then
          let (t, rest) ← takeText (String.ofList (name.toList.map Char.toLower)) quote rest
          next t rest
        else next (.word name) (quote :: rest)
      | [] => next (.word name) []
    else
      let two := String.ofList (c :: cs.take 1)
      if pairs.contains two then next (.mark two) (cs.drop 1)
      else next (.mark (String.singleton c)) cs

def ofText? (s : String) : Option (List Token) := scan s.length s.toList

end Token

end BeliefLogic
