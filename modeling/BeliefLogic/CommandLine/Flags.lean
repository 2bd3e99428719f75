import BeliefLogic.Dictionary
import BeliefLogic.Error

/-!
# Options of a command line

Long options may be cut short while unique, short ones may stand together, and `--` ends options.
-/

namespace BeliefLogic

structure Flag where
  name : String
  hasValue : Bool := true
  deriving DecidableEq, Repr

class Argument (ι : Type) where
  text? : ι → Option String
  ofText : String → ι

instance : Argument String := ⟨some, id⟩

namespace Flag

variable {ι : Type} [Argument ι]

/-- The option of a name, or else the only one that starts with it. -/
def find? (flags : List Flag) (name : String) : Option Flag :=
  match flags.find? (·.name == name) with
  | some f => some f
  | none =>
    match flags.filter fun f => Text.startsWith name f.name with
    | [f] => some f
    | _ => none

def split (cs : List Char) : String × Option String :=
  match cs.span (· != '=') with
  | (name, _ :: value) => (String.ofList name, some (String.ofList value))
  | (name, []) => (String.ofList name, none)

def readLong (flags : List Flag) (written : List Char) (rest : List ι) :
    Except Error ((String × ι) × List ι) :=
  let (name, value) := split written
  match find? flags name, value, rest with
  | some ⟨name, true⟩, some v, rest => .ok (("--" ++ name, Argument.ofText v), rest)
  | some ⟨name, true⟩, none, v :: rest => .ok (("--" ++ name, v), rest)
  | some ⟨name, false⟩, none, rest => .ok (("--" ++ name, Argument.ofText ""), rest)
  | _, _, _ => .error .badOption

def readShort (letters : List Flag) :
    List Char → List ι → Except Error (List (String × ι) × List ι)
  | [], rest => .ok ([], rest)
  | c :: written, rest => do
    let option := "-" ++ String.singleton c
    match letters.find? (·.name == String.singleton c), written, rest with
    | none, _, _ => .error .badOption
    | some ⟨_, false⟩, written, rest =>
      let (options, rest) ← readShort letters written rest
      return ((option, Argument.ofText "") :: options, rest)
    | some ⟨_, true⟩, [], v :: rest => return ([(option, v)], rest)
    | some ⟨_, true⟩, [], [] => .error .badOption
    | some ⟨_, true⟩, value, rest =>
      return ([(option, Argument.ofText (String.ofList value))], rest)

def readWithin (letters flags : List Flag) :
    Nat → List ι → Except Error (List (String × ι) × List ι)
  | 0, args => .ok ([], args)
  | _ + 1, [] => .ok ([], [])
  | n + 1, arg :: rest =>
    match (Argument.text? arg).map String.toList with
    | none => .error .missingPart
    | some ['-'] => .ok ([], arg :: rest)
    | some ['-', '-'] => .ok ([], rest)
    | some ('-' :: '-' :: written) => do
      let (option, rest) ← readLong flags written rest
      let (options, rest) ← readWithin letters flags n rest
      return (option :: options, rest)
    | some ('-' :: written) => do
      let (found, rest) ← readShort letters written rest
      let (options, rest) ← readWithin letters flags n rest
      return (found ++ options, rest)
    | some _ => .ok ([], arg :: rest)

/-- Reads the options, and returns the arguments that follow. -/
def read (letters flags : List Flag) (args : List ι) :
    Except Error (List (String × ι) × List ι) :=
  readWithin letters flags args.length args

end Flag

end BeliefLogic
