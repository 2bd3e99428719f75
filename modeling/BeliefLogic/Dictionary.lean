/-!
# Dictionaries

A dictionary keeps its entries in the order in which their keys first came.
-/

namespace BeliefLogic

/-- Entries in order of their keys' first coming. -/
structure Dictionary (κ ν : Type) where
  entries : List (κ × ν) := []
  deriving Repr, DecidableEq, Inhabited

namespace Dictionary

variable {κ ν μ : Type} [BEq κ]

def empty : Dictionary κ ν := {}

def lookup (key : κ) : List (κ × ν) → Option ν
  | [] => none
  | (k, v) :: rest => if k == key then some v else lookup key rest

def get? (d : Dictionary κ ν) (key : κ) : Option ν := lookup key d.entries

def contains (d : Dictionary κ ν) (key : κ) : Bool := (d.get? key).isSome

def putEntry (key : κ) (v : ν) : List (κ × ν) → List (κ × ν)
  | [] => [(key, v)]
  | (k, w) :: rest => if k == key then (k, v) :: rest else (k, w) :: putEntry key v rest

def put (d : Dictionary κ ν) (key : κ) (v : ν) : Dictionary κ ν := ⟨putEntry key v d.entries⟩

def change (d : Dictionary κ ν) (key : κ) (default : ν) (f : ν → ν) : Dictionary κ ν :=
  d.put key (f ((d.get? key).getD default))

def erase (d : Dictionary κ ν) (key : κ) : Dictionary κ ν :=
  ⟨d.entries.filter fun e => e.1 != key⟩

def keys (d : Dictionary κ ν) : List κ := d.entries.map (·.1)

def values (d : Dictionary κ ν) : List ν := d.entries.map (·.2)

def size (d : Dictionary κ ν) : Nat := d.entries.length

def isEmpty (d : Dictionary κ ν) : Bool := d.entries.isEmpty

def mapValues (f : ν → μ) (d : Dictionary κ ν) : Dictionary κ μ :=
  ⟨d.entries.map fun (k, v) => (k, f v)⟩

/-- Of entries with one key the last value and the first place stay. -/
def ofList (entries : List (κ × ν)) : Dictionary κ ν :=
  entries.foldl (fun d (k, v) => d.put k v) empty

@[simp] theorem lookup_putEntry [EquivBEq κ] (key key' : κ) (v : ν) (es : List (κ × ν)) :
    lookup key' (putEntry key v es) = if key == key' then some v else lookup key' es := by
  induction es with
  | nil => simp [putEntry, lookup]
  | cons e rest ih =>
    obtain ⟨k, w⟩ := e
    by_cases hk : (k == key) = true
    · have hc : (k == key') = (key == key') := BEq.congr_left hk
      by_cases h : (key == key') = true <;> simp [putEntry, lookup, hk, hc, h]
    · by_cases h : (k == key') = true
      · have hn : (key == key') = false := by
          refine Bool.eq_false_iff.2 fun hkey => hk ?_
          exact BEq.trans h (BEq.symm hkey)
        simp [putEntry, lookup, hk, h, hn]
      · simp [putEntry, lookup, hk, h, ih]

@[simp] theorem get?_put [EquivBEq κ] (d : Dictionary κ ν) (key key' : κ) (v : ν) :
    (d.put key v).get? key' = if key == key' then some v else d.get? key' :=
  lookup_putEntry key key' v d.entries

end Dictionary

end BeliefLogic
