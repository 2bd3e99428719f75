import BeliefLogic.Files

/-!
# Archives

Saved matrices as text, a line a matrix. Numbers are written by their bits, so nothing is lost.
-/

namespace BeliefLogic.Archive

open Text

def mark : String := "belief-logic matrices"

def rowText (r : Row Float) : String :=
  " ".intercalate (r.map fun (j, x) => natural j ++ ":" ++ natural x.toBits.toNat)

def line (name : String) (m : Matrix Float) : String :=
  "\t".intercalate (name :: natural m.width :: m.rows.toList.map rowText)

def write (items : List (String × Matrix Float)) : String :=
  "\n".intercalate (mark :: items.map fun (name, m) => line name m)

def readNatural? (s : String) : Option Nat := (readInteger? s).map Int.toNat

def readRow? (s : String) : Option (Row Float) :=
  (Text.words s).mapM fun stored => match fields ':' stored with
    | [j, bits] => do return (← readNatural? j, Float.ofBits (← readNatural? bits).toUInt64)
    | _ => none

def readLine? (s : String) : Option (String × Matrix Float) :=
  match fields '\t' s with
  | name :: width :: rows => do return (name, ⟨← readNatural? width, (← rows.mapM readRow?).toArray⟩)
  | _ => none

def read (chars : String) : Content Float :=
  match fields '\n' chars with
  | first :: rest =>
    if first == mark then ((rest.mapM readLine?).map .matrices).getD (.text chars) else .text chars
  | [] => .text chars

def contentText : Content Float → String
  | .text chars => chars
  | .matrices items => write items

end BeliefLogic.Archive
