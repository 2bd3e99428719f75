import BeliefLogic.Error
import BeliefLogic.Lexicon

/-!
# Catalogues

A catalogue holds facts by relation and subject, read from lines and written as facts.
-/

namespace BeliefLogic

open Text

structure Catalogue where
  relations : Dictionary String (Dictionary String (List String)) := {}
  deriving Repr, Inhabited

namespace Catalogue

def plotRelation : String := "has_plot"

def wordRelation : String := "has_feature"

def insert (c : Catalogue) (relation subject object : String) : Catalogue :=
  ⟨c.relations.change relation {} fun subjects =>
    subjects.change subject [] fun objects => Lexicon.addNew objects object⟩

/-- Lets a subject, new or known, have the objects of another one. -/
def copySubject (c : Catalogue) (relation subject copy : String) : Catalogue :=
  ⟨c.relations.change relation {} fun subjects =>
    let subjects := subjects.change subject [] id
    subjects.put copy ((subjects.get? subject).getD [])⟩

def facts (c : Catalogue) : List (String × String × String) :=
  c.relations.entries.flatMap fun (relation, subjects) =>
    subjects.entries.flatMap fun (subject, objects) =>
      objects.map fun object => (relation, subject, object)

def objectType (relation : String) : String :=
  if relation == plotRelation || relation == wordRelation then "word_t" else "entity_t"

def declaration (subjectType relation : String) : String :=
  relation ++ "(" ++ subjectType ++ "," ++ objectType relation ++ ")"

def declarationLine (declaration : String) : String := "# :- " ++ declaration ++ "\n"

def factLine (relation subject object : String) : String :=
  relation ++ "\t" ++ subject ++ "\t" ++ object ++ "\n"

/-- A catalogue as facts: first all declarations. -/
def lines (c : Catalogue) (subjectType : String) (further : List String) : List String :=
  (c.relations.keys.map (declaration subjectType) ++ further).map declarationLine ++
    c.facts.map fun (relation, subject, object) => factLine relation subject object

def occurrence? (needle : List Char) : List Char → Option Nat
  | [] => if needle.isEmpty then some 0 else none
  | c :: cs =>
    if (dropLeading? needle (c :: cs)).isSome then some 0
    else (occurrence? needle cs).map (· + 1)

def unnumbered (line : String) : Except Error String :=
  match line.toList with
  | [] => .error .outOfRange
  | digit :: rest =>
    if !digit.isDigit then .error (.refused .unstated)
    else match rest with
      | [] => .error .outOfRange
      | blank :: rest => if blank == ' ' then .ok (String.ofList rest) else .error (.refused .unstated)

def stopWords : List String := Text.words
  "a the , to of and in his is with ... an on for he who by her when from their that as but has at
  are him be it this where have"

def objectsOf (relation listed : String) : List String :=
  if relation == plotRelation then
    (Lexicon.tokens (lower listed)).filter fun w => !stopWords.contains w
  else Text.pieces ", " listed

/-- Adds the facts of a line for a relation in it: the subject stands before it, the objects after
it. -/
def addLine (line : String) (c : Catalogue) (relation : String) : Except Error Catalogue :=
  let cs := line.toList
  match occurrence? relation.toList cs with
  | none => .ok c
  | some k =>
    let subject := Lexicon.spaced (String.ofList (if k = 0 then cs.dropLast else cs.take (k - 1)))
    let listed := String.ofList (cs.drop (k + relation.length + 1))
    if subject.isEmpty then .error (.refused (.emptyMovie line))
    else if listed.isEmpty then .error (.refused (.emptyObject line))
    else .ok ((objectsOf relation listed).foldl (fun c o => c.insert relation subject o) c)

/-- A relation that cannot be looked for fails at its first line. -/
def ofLines (relations : List (Except Error String)) (lines : List String) :
    Except Error Catalogue :=
  lines.foldlM (fun c line => do
    let line := strip line
    if line.isEmpty then return c
    let line ← unnumbered line
    relations.foldlM (fun c relation => do addLine line c (← relation)) c) {}

def addAliases (c : Catalogue) (relations : List String) (names : List (String × String)) :
    Catalogue :=
  relations.foldl (fun c relation =>
    names.foldl (fun c (subject, copy) => c.copySubject relation subject copy) c) c

end Catalogue

namespace Lexicon

def absorb (l : Lexicon) (c : Catalogue) : Lexicon :=
  c.relations.entries.foldl (fun l (relation, subjects) =>
    subjects.entries.foldl (fun l (subject, objects) =>
      let l := l.add subject
      if relation == Catalogue.plotRelation then objects.foldl addWord l else objects.foldl add l) l) l

end Lexicon

end BeliefLogic
