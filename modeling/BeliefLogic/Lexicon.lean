import BeliefLogic.Dictionary
import BeliefLogic.Text.Blank

/-!
# Lexicons

A sentence is cut from left to right into the longest names that match, or else single words.
-/

namespace BeliefLogic

structure Lexicon where
  rests : Dictionary String (List (List String)) := {}
  names : List String := []
  words : List String := []
  deriving Repr, Inhabited

namespace Lexicon

def spaced (sentence : String) : String :=
  " , ".intercalate ((Text.fields ',' sentence).map Text.strip)

def tokens (sentence : String) : List String := Text.fields ' ' (spaced sentence)

def addNew {β : Type} [DecidableEq β] (items : List β) (item : β) : List β :=
  if item ∈ items then items else items ++ [item]

def add (l : Lexicon) (name : String) : Lexicon :=
  match tokens name with
  | [] => { l with names := addNew l.names name }
  | first :: rest =>
    { l with names := addNew l.names name
             rests := l.rests.change first [] fun known => addNew known rest }

def addWord (l : Lexicon) (word : String) : Lexicon := { l with words := addNew l.words word }

/-- The longer of two lists of words, or the first. -/
def longer (best : Option (List String)) (rest : List String) : Option (List String) :=
  match best with
  | none => some rest
  | some known => if known.length < rest.length then some rest else some known

def longest (l : Lexicon) (word : String) (following : List String) : Option (List String) :=
  (((l.rests.get? word).getD []).filter fun rest => rest.isPrefixOf following).foldl longer none

inductive Piece where
  | name (words : List String)
  | word (w : String)
  deriving DecidableEq, Repr

def Piece.words : Piece → List String
  | .name words => words
  | .word w => [w]

def cut (l : Lexicon) : List String → List Piece
  | [] => []
  | w :: ws =>
    match l.longest w ws with
    | some rest => .name (w :: rest) :: cut l (ws.drop rest.length)
    | none => .word w :: cut l ws
termination_by words => words.length
decreasing_by all_goals (simp_wf; try omega)

/-- Names are always reported, other words on demand, lone commas never. -/
def Piece.reported (keepWords : Bool) : Piece → Option String
  | .name words => some (" ".intercalate words)
  | .word w => if keepWords && w != "," then some w else none

def read (l : Lexicon) (sentence : String) (keepWords : Bool) : List String :=
  (l.cut (tokens sentence)).filterMap (Piece.reported keepWords)

end Lexicon

end BeliefLogic
