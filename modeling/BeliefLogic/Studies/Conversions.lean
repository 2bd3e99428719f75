import BeliefLogic.Studies.Basic

/-!
# Conversions

Facts and examples are brought from one form into another.
-/

namespace BeliefLogic.Studies

open Workbench Run Text

variable {α : Type} [Scalar α]

def plainCell (name : String) : Except Error String :=
  match fields ',' name with
  | [row, column] => .ok (row ++ "_" ++ column)
  | _ => .error .malformed

def questionText (functor entity : String) : String := functor ++ "(" ++ entity ++ ",Y)"

def pathQuestion (line : String) : Except Error String :=
  match fields '\t' (strip line) with
  | [functor, x, _] => do return questionText functor (← plainCell x)
  | _ => .error .malformed

def plainEdge (line : String) : Except Error String :=
  match fields '\t' (strip line) with
  | [functor, x, y, _] => do
    return "\t".intercalate [functor, ← plainCell x, ← plainCell y]
  | _ => .error .malformed

def convertInput (convert : String → Except Error String) : Studying α Unit :=
  overInput (fun _ line => do say (← lift (convert line))) ()

def peopleRelations : List String :=
  ["t_stress", "t_influences", "t_cancer_spont", "t_cancer_smoke"]

def askPeople : Studying α Unit := do
  let people ← overInput (fun people line => return people ++ [strip line]) []
  peopleRelations.forM fun functor => people.forM fun x => say (questionText functor x)

def labelFacts (entity : String) : String → List String
  | "yAgents" => ["cancer\t" ++ entity ++ "\n"]
  | "yAI" => ["smokes\t" ++ entity ++ "\n"]
  | "yDB" => ["smokes\t" ++ entity ++ "\n", "cancer\t" ++ entity ++ "\n"]
  | _ => []

def convertLabels : Studying α Unit := do
  putText "cancer-smokes.cfacts" ""
  putText "query-entities.txt" ""
  let step : String × String → String → Studying α (String × String) := fun (facts, entities) line =>
    match fields '\t' (strip line) with
    | [entity, label] =>
      return (facts ++ String.join (labelFacts entity label), entities ++ entity ++ "\n")
    | _ => throw .malformed
  let ((facts, entities), result) ← workThrough step ("", "") (← fileLines "labels.txt")
  putText "cancer-smokes.cfacts" facts
  putText "query-entities.txt" entities
  lift result

structure SocialGraph where
  last : Option (String × String × String) := none
  seen : List String := []
  facts : String := ""
  training : String := ""
  testing : String := ""
  deriving Repr

def nodeName (s : String) : Except Error String :=
  if s != "" && s.toList.all isDigitLike then do
    return "node" ++ padded 3 (← readInteger s).toNat
  else .ok s

namespace SocialGraph

def fact (functor x y : String) : String := "\t".intercalate [functor, x, y] ++ "\n"

def label (g : SocialGraph) (x y : String) : Studying α SocialGraph := do
  if x ∈ g.seen then return g
  let g := { g with seen := x :: g.seen }
  let u : α ← draw
  let third : α := Scalar.ofNat 1 / Scalar.ofNat 2 * (Scalar.ofNat 2 / Scalar.ofNat 3)
  if Scalar.ofNat 2 / Scalar.ofNat 3 < u then
    return { g with testing := g.testing ++ fact "inferred_label" x y }
  else if third < u then return { g with training := g.training ++ fact "inferred_label" x y }
  else return { g with facts := g.facts ++ fact "label" x y }

/-- Takes in a line, or the last one that could be read. -/
def addLine (g : SocialGraph) (line : String) : Studying α SocialGraph := do
  let edge ← match fields ' ' (strip line) with
    | [_, kind, x, y] => pure (some (kind, x, y))
    | _ => do
      say ("bad line " ++ quoted line)
      pure g.last
  match edge with
  | none => throw .undefinedName
  | some (kind, x, y) =>
    let x ← lift (nodeName x)
    let y ← lift (nodeName y)
    let g := { g with last := some (kind, x, y) }
    match kind with
    | "e" => return { g with facts := g.facts ++ fact "friend" x y }
    | "isa" => g.label x y
    | _ => return g

end SocialGraph

def convertSocialGraph : Studying α Unit := do
  let stem ← lift (itemAt (← state).arguments 0)
  let facts := stem ++ ".cfacts"
  let training := stem ++ "-train.exam"
  let testing := stem ++ "-test.exam"
  [facts, training, testing].forM fun path => putText path ""
  let lines ← fileLines (stem ++ "-ghirl.txt")
  let (g, result) ← workThrough SocialGraph.addLine {} lines
  putText facts g.facts
  putText training g.training
  putText testing g.testing
  lift result

end BeliefLogic.Studies
