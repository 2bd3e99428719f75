import Mathlib
import BeliefLogic.Lexicon

/-!
# Longest names

Each piece is the longest name that the words left over start with. There is one such cutting.
-/

namespace BeliefLogic.Lexicon

open List

/-- A lexicon was given names, and other words beside them. -/
inductive Given : Lexicon → List String → Prop where
  | empty : Given {} []
  | add {l names} (s : String) : Given l names → Given (l.add s) (names ++ [s])
  | addWord {l names} (s : String) : Given l names → Given (l.addWord s) names

/-- The longest of the names that words start with. -/
structure IsLongest (names words name : List String) : Prop where
  mem : ∃ s ∈ names, tokens s = name
  starts : name <+: words
  longest : ∀ s ∈ names, tokens s <+: words → (tokens s).length ≤ name.length

/-- Words are cut into the longest names or single words. -/
inductive Segmented (names : List String) : List String → List Piece → Prop where
  | nil : Segmented names [] []
  | name {name rest pieces} : IsLongest names (name ++ rest) name → Segmented names rest pieces →
      Segmented names (name ++ rest) (.name name :: pieces)
  | word {w rest pieces} : (∀ s ∈ names, ¬tokens s <+: w :: rest) → Segmented names rest pieces →
      Segmented names (w :: rest) (.word w :: pieces)

def Piece.isName : Piece → Bool
  | .name _ => true
  | .word _ => false

variable {l l' : Lexicon} {names names' words rest : List String} {pieces pieces' : List Piece}
  {w : String}

theorem mem_addNew {β : Type} [DecidableEq β] {items : List β} {x y : β} :
    x ∈ addNew items y ↔ x ∈ items ∨ x = y := by
  unfold addNew
  split
  · next hy => exact ⟨.inl, fun h => h.elim id (· ▸ hy)⟩
  · simp

theorem tokens_ne_nil (s : String) : tokens s ≠ [] := by
  simp [tokens, Text.fields]

/-- Under a word are filed the rests of the names that start with it. -/
theorem Given.mem_rests (h : l.Given names) :
    rest ∈ (l.rests.get? w).getD [] ↔ ∃ s ∈ names, tokens s = w :: rest := by
  induction h with
  | empty => simp [Dictionary.get?, Dictionary.lookup]
  | addWord s _ ih => exact ih
  | @add l names s _ ih =>
    cases hs : tokens s with
    | nil => exact absurd hs (tokens_ne_nil s)
    | cons first others =>
      simp only [Lexicon.add, hs, Dictionary.change, Dictionary.get?_put, mem_append, mem_singleton,
        or_and_right, exists_or, exists_eq_left, List.cons.injEq, ← ih]
      by_cases hw : first = w
      · simp [hw, mem_addNew, eq_comm]
      · simp [hw]

theorem longest_eq_argmax (l : Lexicon) (w : String) (words : List String) :
    l.longest w words =
      (((l.rests.get? w).getD []).filter fun rest => rest.isPrefixOf words).argmax length := by
  have hlonger : longer = argAux fun rest known => known.length < rest.length := by
    funext best rest
    cases best <;> rfl
  rw [longest, hlonger]
  rfl

/-- A name is filed under its first word, and its rest compared. -/
theorem Given.exists_longest (h : l.Given names) {s : String} (hs : s ∈ names)
    (hstarts : tokens s <+: w :: words) :
    ∃ rest, l.longest w words = some rest ∧ (tokens s).length ≤ (w :: rest).length := by
  cases htokens : tokens s with
  | nil => exact absurd htokens (tokens_ne_nil s)
  | cons first others =>
    rw [htokens, cons_prefix_cons] at hstarts
    obtain ⟨rfl, hothers⟩ := hstarts
    have hmem : others ∈ ((l.rests.get? first).getD []).filter fun rest => rest.isPrefixOf words :=
      mem_filter.2 ⟨h.mem_rests.2 ⟨s, hs, htokens⟩, isPrefixOf_iff_prefix.2 hothers⟩
    rw [longest_eq_argmax]
    cases hrest : argmax length _ with
    | none => simp [argmax_eq_none.1 hrest] at hmem
    | some rest => exact ⟨rest, rfl, Nat.succ_le_succ (le_of_mem_argmax hmem hrest)⟩

theorem Given.isLongest (h : l.Given names) (hrest : l.longest w words = some rest) :
    IsLongest names (w :: words) (w :: rest) := by
  rw [longest_eq_argmax] at hrest
  obtain ⟨hfiled, hstarts⟩ := mem_filter.1 (argmax_mem hrest)
  refine ⟨h.mem_rests.1 hfiled, cons_prefix_cons.2 ⟨rfl, isPrefixOf_iff_prefix.1 hstarts⟩, ?_⟩
  intro s hs hprefix
  obtain ⟨found, hfound, hle⟩ := h.exists_longest hs hprefix
  rw [longest_eq_argmax, hrest] at hfound
  exact Option.some.inj hfound ▸ hle

theorem Given.segmented (h : l.Given names) (words : List String) :
    Segmented names words (l.cut words) := by
  fun_induction l.cut words with
  | case1 => exact .nil
  | case2 w ws rest hrest ih =>
    have hlongest := h.isLongest hrest
    obtain ⟨left, rfl⟩ := (cons_prefix_cons.1 hlongest.starts).2
    rw [drop_left] at ih ⊢
    exact .name (cons_append ▸ hlongest) ih
  | case3 w ws hnone ih =>
    refine .word (fun s hs hprefix => ?_) ih
    obtain ⟨rest, hrest, -⟩ := h.exists_longest hs hprefix
    rw [hnone] at hrest
    cases hrest

theorem Segmented.flatMap_words (h : Segmented names words pieces) :
    pieces.flatMap Piece.words = words := by
  induction h with
  | nil => rfl
  | name _ _ ih | word _ _ ih => rw [flatMap_cons, ih]; rfl

theorem IsLongest.unique {name name' : List String} (h : IsLongest names words name)
    (h' : IsLongest names' words name') (hnames : ∀ s, s ∈ names ↔ s ∈ names') : name = name' := by
  obtain ⟨s, hs, rfl⟩ := h.mem
  obtain ⟨s', hs', rfl⟩ := h'.mem
  have hle := h.longest s' ((hnames s').2 hs') h'.starts
  have hge := h'.longest s ((hnames s).1 hs) h.starts
  exact (prefix_of_prefix_length_le h.starts h'.starts hge).eq_of_length (hge.antisymm hle)

/-- Words are cut in one way, in whichever order the names were given. -/
theorem Segmented.cut_eq (h : Segmented names words pieces) (hl : l.Given names')
    (hnames : ∀ s, s ∈ names ↔ s ∈ names') : l.cut words = pieces := by
  induction h with
  | nil => rw [cut]
  | @name name _ _ hlongest _ ih =>
    obtain ⟨s, hs, hname⟩ := hlongest.mem
    cases name with
    | nil => exact absurd hname (tokens_ne_nil s)
    | cons w others =>
      rw [cons_append] at hlongest ⊢
      obtain ⟨found, hfound, -⟩ := hl.exists_longest ((hnames s).1 hs) (hname ▸ hlongest.starts)
      obtain ⟨-, rfl⟩ := cons.inj (hlongest.unique (hl.isLongest hfound) hnames)
      rw [cut, hfound]
      simp [ih]
  | @word w rest pieces hnone _ ih =>
    cases hfound : l.longest w rest with
    | none =>
      rw [cut, hfound]
      simp [ih]
    | some found =>
      obtain ⟨⟨s, hs, hname⟩, hstarts, -⟩ := hl.isLongest hfound
      exact absurd (hname ▸ hstarts) (hnone s ((hnames s).2 hs))

/-- A lexicon cuts a sentence into the longest names that match and single words, and reports pieces
but lone commas, or names only. The order of its names makes no difference. -/
theorem read_longest (h : l.Given names) (sentence : String) :
    ∃ pieces, Segmented names (tokens sentence) pieces ∧
      pieces.flatMap Piece.words = tokens sentence ∧
      l.read sentence true = pieces.filterMap (fun piece =>
        if piece = .word "," then none else some (" ".intercalate piece.words)) ∧
      l.read sentence false = pieces.filterMap (fun piece =>
        if piece.isName then some (" ".intercalate piece.words) else none) ∧
      ∀ l' names', Given l' names' → (∀ s, s ∈ names ↔ s ∈ names') →
        ∀ keepWords, l'.read sentence keepWords = l.read sentence keepWords := by
  have hcut := h.segmented (tokens sentence)
  refine ⟨_, hcut, hcut.flatMap_words, filterMap_congr fun piece _ => ?_,
    filterMap_congr fun piece _ => ?_, fun l' names' h' hnames keepWords => ?_⟩
  · cases piece with
    | name words => simp [Piece.reported, Piece.words]
    | word w => by_cases hw : w = "," <;> simp [Piece.reported, Piece.words, hw]
  · cases piece <;> simp [Piece.reported, Piece.isName, Piece.words]
  · rw [read, hcut.cut_eq h' hnames, read]

/-- Of names that start with the same words the longest is found. -/
theorem read_longest_kings : ∃ pieces,
    Segmented ["king", "king, of", "of hearts"] (tokens "the king, of hearts") pieces ∧
      ∀ keepWords,
        (((({} : Lexicon).add "of hearts").add "king, of").add "king").read "the king, of hearts"
            keepWords =
          (((({} : Lexicon).add "king").add "king, of").add "of hearts").read "the king, of hearts"
            keepWords := by
  obtain ⟨pieces, hcut, -, -, -, hsame⟩ := read_longest
    (((Given.empty.add "king").add "king, of").add "of hearts") "the king, of hearts"
  refine ⟨pieces, hcut, hsame _ _ (((Given.empty.add "of hearts").add "king, of").add "king") ?_⟩
  simp [or_comm, or_left_comm]

end BeliefLogic.Lexicon
