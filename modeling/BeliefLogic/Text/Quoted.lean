import BeliefLogic.Text.Classes

/-!
# Quoted text

A name is quoted with apostrophes, unless it holds an apostrophe and no double quote.
-/

namespace BeliefLogic.Text

def hex (width n : Nat) : String :=
  let digits := String.ofList (Nat.toDigits 16 n)
  String.ofList (List.replicate (width - digits.length) '0') ++ digits

def escapeChar (quote c : Char) : String :=
  if c = quote || c = '\\' then String.ofList ['\\', c]
  else if c = '\n' then "\\n"
  else if c = '\r' then "\\r"
  else if c = '\t' then "\\t"
  else if isPrintable c then String.singleton c
  else if c.toNat < 0x100 then "\\x" ++ hex 2 c.toNat
  else if c.toNat < 0x10000 then "\\u" ++ hex 4 c.toNat
  else "\\U" ++ hex 8 c.toNat

def quoteFor (s : String) : Char :=
  if s.toList.contains '\'' && !s.toList.contains '"' then '"' else '\''

def quoted (s : String) : String :=
  let q := quoteFor s
  String.singleton q ++ String.join (s.toList.map (escapeChar q)) ++ String.singleton q

def bracketed (items : List String) : String :=
  "[" ++ ", ".intercalate items ++ "]"

def parenthesized : List String → String
  | [item] => "(" ++ item ++ ",)"
  | items => "(" ++ ", ".intercalate items ++ ")"

def quotedList (items : List String) : String :=
  bracketed (items.map quoted)

def quotedSet (items : List String) : String :=
  if items.isEmpty then "set()"
  else
    "\x7b" ++ ", ".intercalate ((items.mergeSort fun a b => decide (a ≤ b)).map quoted) ++ "\x7d"

def isNarrow (s : String) : Bool := s.toList.all fun c => c.toNat < 256

end BeliefLogic.Text
