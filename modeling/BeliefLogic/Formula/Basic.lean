import BeliefLogic.Schema

/-!
# Formulas

A formula says how answers follow from inputs and named matrices, without computing them.
-/

namespace BeliefLogic

/-- How answers follow from inputs. -/
inductive Formula where
  | input (name : String) (type : Option String)
  | given (name : String)
  | handle (key : Predicate) (name : String)
  | transpose (matrix : Formula)
  | sum (left right : Formula)
  | softmax (weights : Formula) (type : Option String)
  | product (row matrix : Formula)
  | hadamard (left right : Formula)
  | weighted (row weight : Formula)
  /-- A relation defined outside, under the name of its definition. -/
  | plugin (name : String) (args : List Formula)
  deriving Repr, Inhabited

namespace Formula

def typeText (type : Option String) : String := type.getD "None"

mutual

def text : Formula → String
  | .input name type => name ++ ":vector:" ++ typeText type
  | .given name => name
  | .handle _ name => name
  | .transpose m => "T(" ++ text m ++ ")"
  | .sum a b => "(" ++ text a ++ " + " ++ text b ++ ")"
  | .softmax e type => "softmax(" ++ text e ++ "," ++ typeText type ++ ")"
  | .product v m => "mul(" ++ text v ++ "," ++ text m ++ ")"
  | .hadamard a b => "had(" ++ text a ++ "," ++ text b ++ ")"
  | .weighted v w => "wt(" ++ text v ++ "," ++ text w ++ ")"
  | .plugin name args => name ++ "(" ++ ",".intercalate (textAll args) ++ ")"

def textAll : List Formula → List String
  | [] => []
  | e :: es => text e :: textAll es

end

def variableText (handle : String) : String := "var(" ++ handle ++ ")"

/-- The gradient of a loss by the variable behind a named matrix. -/
def gradientText (handle : String) : String := "grad(" ++ variableText handle ++ ")"

def target : String := "_target_y"

def lossText (answer : Formula) : String := "xent(" ++ target ++ "," ++ answer.text ++ ")"

def substituted (text input value : String) : String :=
  text ++ "[" ++ input ++ ":=" ++ value ++ "]"

end Formula

end BeliefLogic
