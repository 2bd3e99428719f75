import BeliefLogic.Files
import BeliefLogic.Mode
import BeliefLogic.Options

/-!
# Runs

A run reads settings, works on files, on a state and on a log. What it did before a failure stays
done.
-/

namespace BeliefLogic

inductive Severity where
  | warning
  | error
  deriving DecidableEq, Repr, Inhabited

structure LogLine where
  severity : Severity
  text : String
  deriving DecidableEq, Repr, Inhabited

/-- The new order of the rows of each mode, and the turns of the modes. -/
structure Shuffling where
  rows : Mode → List Nat → List Nat
  turns : List Nat → List Nat

def Shuffling.reversing : Shuffling := ⟨fun _ => List.reverse, List.reverse⟩

/-- What is around a run. It takes the next of the given ways each time it shuffles. -/
structure World (α : Type) where
  settings : Settings α
  files : Files α := {}
  printed : Array String := #[]
  log : Array LogLine := #[]
  shufflings : Nat → Shuffling := fun _ => .reversing

abbrev Run (α σ : Type) := EStateM Error (World α × σ)

namespace Run

variable {α σ τ β : Type}

def world : Run α σ (World α) := return (← get).1

def settings : Run α σ (Settings α) := return (← world).settings

def files : Run α σ (Files α) := return (← world).files

def setFiles (fs : Files α) : Run α σ Unit :=
  modify fun (w, s) => ({ w with files := fs }, s)

def state : Run α σ σ := return (← get).2

def setState (s : σ) : Run α σ Unit := modify fun (w, _) => (w, s)

def update (f : σ → σ) : Run α σ Unit := modify fun (w, s) => (w, f s)

def nextShuffling : Run α σ Shuffling := do
  let w ← world
  modify fun (w, s) => ({ w with shufflings := fun n => w.shufflings (n + 1) }, s)
  return w.shufflings 0

def print (text : String) : Run α σ Unit :=
  modify fun (w, s) => ({ w with printed := w.printed.push text }, s)

def say (line : String) : Run α σ Unit := print (line ++ "\n")

def note (severity : Severity) (text : String) : Run α σ Unit :=
  modify fun (w, s) => ({ w with log := w.log.push ⟨severity, text⟩ }, s)

def warn (text : String) : Run α σ Unit := note .warning text

def complain (text : String) : Run α σ Unit := note .error text

def fail (e : Error) : Run α σ β := throw e

def refuse (why : Refusal) : Run α σ β := throw (.refused why)

def require (condition : Bool) (why : Refusal) : Run α σ Unit :=
  if condition then pure () else refuse why

def lift (x : Except Error β) : Run α σ β :=
  match x with
  | .ok b => pure b
  | .error e => throw e

def focus (get : σ → τ) (set : τ → σ → σ) (act : Run α τ β) : Run α σ β := fun (w, s) =>
  match act (w, get s) with
  | .ok b (w', t) => .ok b (w', set t s)
  | .error e (w', t) => .error e (w', set t s)

def within (t : τ) (act : Run α τ β) : Run α σ (β × τ) := fun (w, s) =>
  match act (w, t) with
  | .ok b (w', t') => .ok (b, t') (w', s)
  | .error e (w', _) => .error e (w', s)

def fileText (path : String) : Run α σ String := do lift ((← files).read path)

def fileLines (path : String) : Run α σ (List String) := do lift ((← files).lines path)

def putText (path : String) (chars : String) : Run α σ Unit := do
  setFiles (← lift ((← files).write path (.text chars)))

def emit (piece : String) : Run α String Unit := update fun text => text ++ piece

/-- Writes a file piece by piece. What was written before a failure stays. -/
def writing (path : String) (append : Bool) (act : Run α String β) : Run α σ β := do
  let before ← if append && (← files).isFile path then fileText path else pure ""
  putText path before
  let (result, text) ← within before (tryCatch (return .ok (← act)) fun e => return .error e)
  putText path text
  lift result

end Run

end BeliefLogic
