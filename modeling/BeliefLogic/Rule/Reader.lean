import BeliefLogic.Mode
import BeliefLogic.Rule.Theory
import BeliefLogic.Run

/-!
# Reading theories

Rules are taken wherever they stand, and what follows the last rule is reported.
-/

namespace BeliefLogic

open Text

structure LineSource where
  label : String
  lines : List String
  deriving Repr, Inhabited

namespace LineSource

def ofLines (lines : List String) : LineSource := ⟨"<lines>", lines⟩

def ofFile (path : String) (lines : List String) : LineSource :=
  ⟨"<_io.TextIOWrapper name=" ++ quoted path ++ " mode='r' encoding='utf-8'>", lines⟩

end LineSource

namespace Theory

/-- The text of lines that are not comments. An empty line is refused. -/
def uncommented (lines : List String) : Except Error (List Char) := do
  let kept ← lines.mapM fun line =>
    match line.toList with
    | [] => .error .outOfRange
    | '#' :: _ => .ok []
    | cs => .ok cs
  return kept.flatten

/-- Adds the rules found in lines, and returns the text after the last. -/
def extend (d : Dialect) (lines : List String) (t : Theory) : Except Error (Theory × String) := do
  let chars ← uncommented lines
  let found := Grammar.scan d 0 (expandTabs chars)
  let extended ← found.foldlM (fun t f => t.add f.rule) t
  match found with
  | [] =>
    if t.size = 0 then .ok (t, String.ofList chars) else .error .noRuleFound
  | first :: _ =>
    if !(stripChars (chars.take first.start)).isEmpty then .error .leadingText
    else
      let stop := (found.getLastD first).stop
      .ok (extended, String.ofList (stripChars (chars.drop stop)))

end Theory

namespace Run

variable {α σ : Type}

/-- Reads rules into a theory, and reports text after the last rule. -/
def readRules (d : Dialect) (source : LineSource) (onto : Theory) : Run α σ Theory := do
  let (t, unread) ← lift (onto.extend d source.lines)
  if !unread.isEmpty then
    complain ("unparsed text at end of " ++ source.label ++ ": \"..." ++ unread ++ "\"")
  return t

def fileDialect (default : Dialect) (path : String) : Dialect :=
  if endsWith "tlog" path then .operator else default

/-- Reads the rules of a file, and adds them to a theory if one is given. -/
def readRuleFile (path : String) (onto : Option Theory) : Run α σ Theory := do
  let d := fileDialect (← settings).dialect path
  let lines ← fileLines path
  readRules d (.ofFile path lines) (onto.getD { dialect := d })

/-- Reads the rules of several files, whose names are separated by colons. -/
def readRuleFiles (paths : String) : Run α σ Theory := do
  match fields ':' paths with
  | [] => fail .missingFile
  | first :: rest =>
    rest.foldlM (fun t path => readRuleFile path (some t)) (← readRuleFile first none)

end Run

end BeliefLogic
