import Std.Data.HashMap
import BeliefLogic.Position

/-!
# Symbol tables

A symbol table numbers names 1, 2, … as they are first met. It carries the proof that names and
numbers determine each other.
-/

namespace BeliefLogic

/-- Names numbered from one on. -/
structure Symbols where
  names : Array String := #[]
  index : Std.HashMap String Nat := {}
  index_iff : ∀ (s : String) (i : Nat), index[s]? = some i ↔ names[i]? = some s := by simp

namespace Symbols

def empty : Symbols := {}

instance : Inhabited Symbols := ⟨empty⟩

def insert (t : Symbols) (s : String) : Symbols :=
  if h : t.index[s]? = none then
    { names := t.names.push s
      index := t.index.insert s t.names.size
      index_iff := by
        intro s' i
        have hnot : ∀ j, t.names[j]? ≠ some s := fun j hj => by
          rw [(t.index_iff s j).2 hj] at h
          exact absurd h (by simp)
        rw [Std.HashMap.getElem?_insert, Array.getElem?_push]
        by_cases hs : s = s'
        · subst hs
          by_cases hi : i = t.names.size
          · simp [hi]
          · simp [hi, hnot i, Ne.symm hi]
        · by_cases hi : i = t.names.size
          · subst hi
            have hout : t.index[s']? ≠ some t.names.size := fun hc => by
              have := (t.index_iff s' t.names.size).1 hc
              simp at this
            simp [hs, hout]
          · simpa [hs, hi] using t.index_iff s' i }
  else t

def size (t : Symbols) : Nat := t.names.size

def id? (t : Symbols) (s : String) : Option Nat := t.index[s]?.map (· + 1)

def has (t : Symbols) (s : String) : Bool := (t.id? s).isSome

def intern (t : Symbols) (s : String) : Nat × Symbols :=
  match t.id? s with
  | some n => (n, t)
  | none => (t.size + 1, t.insert s)

/-- The name with a number. 0 has none, and negative numbers count from the end. -/
def name (t : Symbols) (k : Int) : Except Error (Option String) :=
  match position? (t.size + 1) k with
  | none => .error .outOfRange
  | some 0 => .ok none
  | some (i + 1) => .ok t.names[i]?

def toList (t : Symbols) : List String := t.names.toList

def ofList (names : List String) : Symbols := names.foldl insert empty

def null : String := "__NULL__"

def unknown : String := "__OOV__"

/-- A table of entities: the null and the unknown one come first. -/
def entities : Symbols := ofList [null, unknown]

theorem id?_eq_some_iff (t : Symbols) (s : String) (i : Nat) :
    t.id? s = some (i + 1) ↔ t.names[i]? = some s := by
  simp [id?, t.index_iff]

end Symbols

end BeliefLogic
