import BeliefLogic.Workbench.Arguments

/-!
# Naming commands

Commands are found by name, and take arguments by position or by name.
-/

namespace BeliefLogic.Workbench

/-- A command's names, and its required and optional parameters. -/
structure Wording where
  names : List String
  required : List String
  optional : List String
  deriving DecidableEq, Repr, Inhabited

abbrev Vocabulary := List Wording

namespace Wording

variable {α : Type}

/-- The parameters of a word: a number stands for that many without names. -/
def parameters (word : String) : List String :=
  match Text.readInteger? word with
  | some n => List.replicate n.toNat ""
  | none => [word]

/-- Reads a wording: names, then parameters, those after a bar optional. -/
def read (s : String) : Wording :=
  match Text.words s with
  | names :: params =>
    ⟨Text.fields ',' names, (params.takeWhile (· != "|")).flatMap parameters,
      (params.dropWhile (· != "|")).tail.flatMap parameters⟩
  | [] => ⟨[], [], []⟩

/-- Puts arguments into the order of the parameters. -/
def arrange (w : Wording) (given : List (Value α)) (named : List (String × Value α)) :
    Except Error (Args α) :=
  let params := w.required ++ w.optional
  let rest := params.drop given.length
  let args : Args α := given.map some ++ rest.map fun p => (named.find? (·.1 == p)).map (·.2)
  if params.length < given.length ∨ named.any (fun (name, _) => !rest.contains name) ∨
      (args.take w.required.length).any Option.isNone then .error .illTyped
  else .ok (args.reverse.dropWhile Option.isNone).reverse

end Wording

namespace Vocabulary

variable {α : Type}

def read (s : String) : Vocabulary := (Text.fields ';' s).map Wording.read

def number? (v : Vocabulary) (name : String) : Option Nat := v.findIdx? (·.names.contains name)

/-- The number of a command and its ordered arguments. -/
def find (v : Vocabulary) (name : String) (given : List (Value α)) (named : List (String × Value α)) :
    Except Error (Nat × Args α) :=
  match v.number? name with
  | some i => return (i, ← (v.getD i default).arrange given named)
  | none => .error .missingPart

end Vocabulary

end BeliefLogic.Workbench
