import BeliefLogic.CommandLine.Flags
import BeliefLogic.Run

/-!
# Preferences

Named values that a command line can change. A value keeps its kind.
-/

namespace BeliefLogic

abbrev Preferences (α : Type) := Dictionary String (Datum α)

variable {α : Type} [Scalar α]

instance {α : Type} : Argument (Datum α) where
  text?
    | .text s => some s
    | _ => none
  ofText := .text

def offWords : List String := ["False", "false", "0", "", "n", "N", "No", "no"]

namespace Datum

def isOn : Datum α → Bool
  | .text s => !offWords.contains s
  | _ => true

def asInteger : Datum α → Except Error Int
  | .text s => match Text.readInteger? s with
    | some n => .ok n
    | none => .error .malformed
  | .number x => match Text.integerPart? (Scalar.toFloat x) with
    | some n => .ok n
    | none => .error (if Scalar.isUndefined x then .malformed else .tooLarge)
  | d => match d.integer? with
    | some n => .ok n
    | none => .error .illTyped

def asNumber : Datum α → Except Error α
  | .text s => match Text.readLiteral? s with
    | some x => .ok (Scalar.ofLiteral x)
    | none => .error .malformed
  | d => match d.number? with
    | some x => .ok x
    | none => .error .illTyped

/-- The letters of a text, the items of a list or the names in a dictionary. -/
def asList : Datum α → Except Error (List (Datum α))
  | .text s => .ok (s.toList.map fun c => .text c.toString)
  | .list items | .tuple items => .ok items
  | .dictionary entries => .ok (entries.map fun e => .text e.1)
  | _ => .error .illTyped

def asEntry (d : Datum α) : Except Error (String × Datum α) := do
  match ← d.asList with
  | [name, d] => return (name.printed, d)
  | _ => throw .malformed

def readAs (given : Datum α) : Datum α → Except Error (Datum α)
  | .truth _ => .ok (.truth given.isOn)
  | .integer _ => return .integer (← given.asInteger)
  | .number _ => return .number (← given.asNumber)
  | .text _ => .ok (.text given.printed)
  | .list _ => return .list (← given.asList)
  | .tuple _ => return .tuple (← given.asList)
  | .dictionary _ => match given with
    | .dictionary entries => .ok (.dictionary entries)
    | given => do return .dictionary (Dictionary.ofList (← (← given.asList).mapM asEntry)).entries
  | .nothing | .other _ _ _ => .error .illTyped

end Datum

namespace Preferences

def usage (p : Preferences α) : String :=
  " ".intercalate (p.entries.map fun (name, v) => "[--" ++ name ++ " " ++ v.shown ++ "]")

def experiment : Preferences α := .ofList
  [("train_data", .text "train.exam"), ("test_data", .text "test.exam"), ("db", .text "db.cfacts"),
    ("prog", .text "theory.ppr"), ("mode", .text "predict/io"), ("epochs", .integer 10),
    ("batch_size", .integer 125)]

end Preferences

def Run.setPreferences (args : List (Datum α)) : Run α (Preferences α) Unit := do
  let (flags, _) ← lift (Flag.read [⟨"x", false⟩] ((← state).keys.map fun name => ⟨name, true⟩) args)
  for (flag, given) in (Dictionary.ofList flags).entries do
    let name := String.ofList (flag.toList.drop 2)
    match (← state).get? name with
    | some v =>
      let v ← lift (given.readAs v)
      update (·.put name v)
    | none => fail .missingPart

end BeliefLogic
