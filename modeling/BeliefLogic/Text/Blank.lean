/-!
# Blanks, fields and lines

Every cut keeps all characters, so joining the pieces gives the text back.
-/

namespace BeliefLogic.Text

/-- The ASCII spaces, the separators 28 to 31, and the spaces of Unicode. -/
def isBlank (c : Char) : Bool :=
  let n := c.toNat
  (9 ≤ n && n ≤ 13) || (28 ≤ n && n ≤ 32) || n == 0x85 || n == 0xa0 || n == 0x1680 ||
    (0x2000 ≤ n && n ≤ 0x200a) || n == 0x2028 || n == 0x2029 || n == 0x202f || n == 0x205f ||
    n == 0x3000

def stripChars (cs : List Char) : List Char :=
  ((cs.dropWhile isBlank).reverse.dropWhile isBlank).reverse

def strip (s : String) : String :=
  String.ofList (stripChars s.toList)

/-- Cuts at every occurrence of a character, into at least one piece. -/
def cut (sep : Char) : List Char → List (List Char)
  | [] => [[]]
  | c :: cs =>
    if c = sep then [] :: cut sep cs
    else match cut sep cs with
      | [] => [[c]]
      | piece :: rest => (c :: piece) :: rest

@[simp] theorem cut_ne_nil (sep : Char) (cs : List Char) : cut sep cs ≠ [] := by
  cases cs with
  | nil => simp [cut]
  | cons c cs =>
    by_cases h : c = sep
    · simp [cut, h]
    · simp only [cut, h, if_false]
      split <;> simp

def fields (sep : Char) (s : String) : List String :=
  (cut sep s.toList).map String.ofList

/-- The rest of a text after a leading piece, if it is there. -/
def dropLeading? : List Char → List Char → Option (List Char)
  | [], cs => some cs
  | _ :: _, [] => none
  | p :: ps, c :: cs => if p = c then dropLeading? ps cs else none

theorem eq_append_of_dropLeading? {p cs rest : List Char} (h : dropLeading? p cs = some rest) :
    cs = p ++ rest := by
  induction p generalizing cs with
  | nil => simpa [dropLeading?] using h
  | cons a p ih =>
    cases cs with
    | nil => simp [dropLeading?] at h
    | cons c cs =>
      by_cases hc : a = c
      · subst hc
        simp only [dropLeading?, if_true] at h
        simp [ih h]
      · simp [dropLeading?, hc] at h

/-- Cuts at every occurrence of a non-empty piece of text, from the left. -/
def cutAt (sep : List Char) (cs : List Char) : List (List Char) :=
  go cs []
where
  go (cs : List Char) (piece : List Char) : List (List Char) :=
    match cs with
    | [] => [piece.reverse]
    | c :: rest =>
      match dropLeading? sep (c :: rest) with
      | some after =>
        if _h : after.length < (c :: rest).length then piece.reverse :: go after []
        else go rest (c :: piece)
      | none => go rest (c :: piece)
  termination_by cs.length
  decreasing_by
    · assumption
    · simp
    · simp

def pieces (sep : String) (s : String) : List String :=
  (cutAt sep.toList s.toList).map String.ofList

def contains (needle : String) (s : String) : Bool :=
  go s.toList
where
  go : List Char → Bool
    | [] => needle.toList.isEmpty
    | c :: cs => (dropLeading? needle.toList (c :: cs)).isSome || go cs

def startsWith (head : String) (s : String) : Bool :=
  (dropLeading? head.toList s.toList).isSome

def endsWith (tail : String) (s : String) : Bool :=
  (dropLeading? tail.toList.reverse s.toList.reverse).isSome

def words (s : String) : List String :=
  go s.toList []
where
  go : List Char → List Char → List String
    | [], [] => []
    | [], w => [String.ofList w.reverse]
    | c :: cs, w =>
      if isBlank c then
        if w.isEmpty then go cs [] else String.ofList w.reverse :: go cs []
      else go cs (c :: w)

/-- Reads a carriage return, and a newline after it, as one newline. -/
def unifyNewlines : List Char → List Char
  | [] => []
  | '\r' :: '\n' :: cs => '\n' :: unifyNewlines cs
  | '\r' :: cs => '\n' :: unifyNewlines cs
  | c :: cs => c :: unifyNewlines cs

def cutLines (ends : Char → Bool) : List Char → List (List Char)
  | [] => []
  | '\r' :: '\n' :: cs =>
    if ends '\r' then ['\r', '\n'] :: cutLines ends cs
    else if ends '\n' then ['\r', '\n'] :: cutLines ends cs
    else match cutLines ends cs with
      | [] => [['\r', '\n']]
      | line :: rest => ('\r' :: '\n' :: line) :: rest
  | c :: cs =>
    if ends c then [c] :: cutLines ends cs
    else match cutLines ends cs with
      | [] => [[c]]
      | line :: rest => (c :: line) :: rest

def fileLines (s : String) : List String :=
  (cutLines (· == '\n') s.toList).map String.ofList

def isLineEnd (c : Char) : Bool :=
  let n := c.toNat
  (10 ≤ n && n ≤ 13) || (28 ≤ n && n ≤ 30) || n == 0x85 || n == 0x2028 || n == 0x2029

def textLines (s : String) : List String :=
  (cutLines isLineEnd s.toList).map String.ofList

/-- Replaces each tab by blanks up to the next multiple of eight columns. -/
def expandTabs (cs : List Char) : List Char :=
  go 0 cs
where
  /-- Follows the column, which a newline or a carriage return sets back. -/
  go (column : Nat) : List Char → List Char
    | [] => []
    | c :: cs =>
      if c = '\t' then
        let width := 8 - column % 8
        List.replicate width ' ' ++ go (column + width) cs
      else if c = '\n' || c = '\r' then c :: go 0 cs
      else c :: go (column + 1) cs

end BeliefLogic.Text
