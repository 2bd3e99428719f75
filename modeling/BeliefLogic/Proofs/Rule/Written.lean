import BeliefLogic.Proofs.Text
import BeliefLogic.Rule.Grammar

/-!
# Reading what was written

Goals of plain atoms are read back, whatever follows that could not be part of them.
-/

namespace BeliefLogic

open List

variable {β : Type} {cs cs' ws p left rest u : List Char} {s t opening sep : String}
  {g : Goal} {d : Dialect} {gs : List Goal} {generator : Option (List Goal)} {r : Rule}

namespace Grammar

theorem skip_skip (cs : List Char) : skip (skip cs) = skip cs := by
  induction cs with
  | nil => rfl
  | cons c cs ih =>
    by_cases hc : isSpace c = true
    · simpa [skip, hc] using ih
    · simp [skip, hc]

theorem skip_append (h : ∀ c ∈ ws, isSpace c = true) (cs : List Char) :
    skip (ws ++ cs) = skip cs := by
  induction ws with
  | nil => rfl
  | cons c ws ih =>
    obtain ⟨hc, hws⟩ := forall_mem_cons.1 h
    simpa [skip, hc] using ih hws

theorem skip_space (h : isSpace c = true) (cs : List Char) : skip (c :: cs) = skip cs :=
  skip_append (forall_mem_singleton.2 h) cs

theorem skip_cons (h : isSpace c = false) (cs : List Char) : skip (c :: cs) = c :: cs := by
  simp [skip, h]

theorem length_skip_le (cs : List Char) : (skip cs).length ≤ cs.length :=
  (dropWhile_sublist _).length_le

def next (cs : List Char) : Option Char := (skip cs).head?

theorem next_cons (h : isSpace c = false) (cs : List Char) : next (c :: cs) = some c := by
  rw [next, skip_cons h]
  rfl

theorem next_congr (h : skip cs = skip cs') : next cs = next cs' := by
  rw [next, next, h]

theorem isSpace_of_isAtomChar (h : isAtomChar c = true) : isSpace c = false := by
  by_contra hc
  have hspace : ((c = ' ' ∨ c = '\n') ∨ c = '\t') ∨ c = '\r' := by
    simpa only [isSpace, Bool.not_eq_false, Bool.or_eq_true, beq_iff_eq] using hc
  rcases hspace with ((rfl | rfl) | rfl) | rfl <;> revert h <;> decide

theorem token_congr (h : skip cs = skip cs') (t : String) : token t cs = token t cs' := by
  rw [token, token, h]

theorem token_eq_some (h : skip cs = t.toList ++ rest) :
    token t cs = some ((), rest) := by
  rw [token, h, Text.dropLeading?_append, Option.map_some]

theorem token_eq_none (ht : t.toList = c :: p) (h : next cs ≠ some c) :
    token t cs = none := by
  rw [next] at h
  rw [token, ht]
  cases hcs : skip cs with
  | nil => rfl
  | cons d ds =>
    have hne : c ≠ d := fun heq => h (by rw [hcs, heq]; rfl)
    simp [Text.dropLeading?, hne]

/-- A reader reads a value and leaves a text, up to blanks at its start. -/
def Reads (read : Reader β) (cs : List Char) (x : β) (rest : List Char) : Prop :=
  ∃ left, read cs = some (x, left) ∧ (left = rest ∨ left = skip rest)

theorem skip_of_left (h : left = rest ∨ left = skip rest) :
    skip left = skip rest := by
  rcases h with rfl | rfl
  · rfl
  · exact skip_skip rest

theorem length_of_left (h : left = rest ∨ left = skip rest) :
    left.length ≤ rest.length := by
  rcases h with rfl | rfl
  · exact le_rfl
  · exact length_skip_le rest

/-- A sign told from atoms, blanks and arguments. -/
def isSign (t : String) : Bool :=
  t.toList.head?.any fun c => !isAtomChar c && c != '\'' && !isSpace c && c != '('

/-- A sign as it is written, with or without blanks around it. -/
def Writes (t s : String) : Prop :=
  isSign t = true ∧ skip s.toList = t.toList ++ s.toList.reverse.takeWhile isSpace

instance (t s : String) : Decidable (Writes t s) := inferInstanceAs (Decidable (_ = _ ∧ _ = _))

theorem Writes.exists_cons (h : Writes t s) : ∃ c p, t.toList = c :: p ∧
    (isAtomChar c = false ∧ c ≠ '\'') ∧ isSpace c = false ∧ c ≠ '(' := by
  obtain ⟨c, hc, hsign⟩ := (Option.any_eq_true _ _).1 h.1
  obtain ⟨p, hp⟩ := head?_eq_some_iff.1 hc
  exact ⟨c, p, hp, by simpa [and_assoc] using hsign⟩

theorem Writes.skip_append_eq (h : Writes t s) (u : List Char) :
    skip (s.toList ++ u) = t.toList ++ (s.toList.reverse.takeWhile isSpace ++ u) := by
  obtain ⟨c, p, ht, -⟩ := h.exists_cons
  have hskip := h.2
  rw [skip] at hskip
  rw [skip, dropWhile_append, hskip, ht, if_neg (by simp), append_assoc]

theorem Writes.token_eq (h : Writes t s) (hcs : skip cs = skip (s.toList ++ u)) :
    ∃ left, token t cs = some ((), left) ∧ skip left = skip u ∧ u.length < cs.length := by
  rw [h.skip_append_eq] at hcs
  obtain ⟨c, p, ht, -⟩ := h.exists_cons
  have hle := length_skip_le cs
  rw [hcs, ht] at hle
  simp only [length_append, length_cons] at hle
  exact ⟨_, token_eq_some hcs, skip_append (fun _ => mem_takeWhile_imp) u, by omega⟩

section Items

variable {item : Reader β} (write : β → List Char) (Stop : List Char → Prop)

theorem stop_items (hstop : ∀ u, Stop (s.toList ++ u)) (hrest : Stop rest) (xs : List β) :
    Stop (xs.flatMap (fun x => s.toList ++ write x) ++ rest) := by
  cases xs with
  | nil => exact hrest
  | cons y ys =>
    rw [flatMap_cons, append_assoc, append_assoc]
    exact hstop _

theorem moreItems_written (hsep : Writes sep s) (hstop : ∀ u, Stop (s.toList ++ u))
    (hrest : Stop rest) (hend : token sep rest = none) {xs : List β}
    (hitem : ∀ x ∈ xs, ∀ u, Stop u → ∀ cs, skip cs = skip (write x ++ u) → Reads item cs x u)
    (hcs : cs = xs.flatMap (fun x => s.toList ++ write x) ++ rest ∨
      cs = skip (xs.flatMap (fun x => s.toList ++ write x) ++ rest)) :
    ∃ left, moreItems sep item cs = (xs, left) ∧ (left = rest ∨ left = skip rest) := by
  induction xs generalizing cs with
  | nil =>
    refine ⟨cs, ?_, hcs⟩
    have hnone : token sep cs = none := (token_congr (skip_of_left hcs) sep).trans hend
    rw [moreItems, hnone]
    rfl
  | cons x xs ih =>
    set u := xs.flatMap (fun x => s.toList ++ write x) ++ rest
    obtain ⟨start, htoken, hstart, hlength⟩ := hsep.token_eq (u := write x ++ u) (by
      rw [skip_of_left hcs, flatMap_cons, append_assoc, append_assoc])
    have hstopu : Stop u := stop_items write Stop hstop hrest xs
    obtain ⟨left, hleft, hor⟩ := hitem x mem_cons_self u hstopu start hstart
    obtain ⟨left', hmore, hor'⟩ := ih (fun y hy => hitem y (mem_cons_of_mem _ hy)) hor
    have hshorter : left.length < cs.length := by
      have := length_of_left hor
      rw [length_append] at hlength
      omega
    refine ⟨left', ?_, hor'⟩
    rw [moreItems, htoken]
    simp [hleft, hshorter, hmore]

theorem itemList_written (hsep : Writes sep s) (hstop : ∀ u, Stop (s.toList ++ u))
    (hrest : Stop rest) (hend : token sep rest = none) {x : β} {xs : List β}
    (hitem : ∀ y ∈ x :: xs, ∀ u, Stop u → ∀ cs, skip cs = skip (write y ++ u) → Reads item cs y u)
    (hcs : skip cs = skip (s.toList.intercalate ((x :: xs).map write) ++ rest)) :
    Reads (itemList sep item) cs (x :: xs) rest := by
  obtain ⟨hfirst, hothers⟩ := forall_mem_cons.1 hitem
  rw [map_cons, Text.intercalate_cons_eq, flatMap_map, append_assoc] at hcs
  obtain ⟨left, hleft, hor⟩ := hfirst _ (stop_items write Stop hstop hrest xs) cs hcs
  obtain ⟨left', hmore, hor'⟩ :=
    moreItems_written write Stop hsep hstop hrest hend hothers hor
  rw [Reads, itemList, hleft]
  simp only [Option.map_some, hmore]
  cases xs with
  | nil => exact ⟨skip left', rfl, .inr (skip_of_left hor')⟩
  | cons y ys => exact ⟨left', rfl, hor'⟩

end Items

def IsPlain (s : String) : Prop := s.toList ≠ [] ∧ ∀ c ∈ s.toList, isAtomChar c = true

/-- A text that does not go on with an atom. -/
def Stops (cs : List Char) : Prop := ∀ c ∈ cs.head?, isAtomChar c = false

theorem stops_of_isSpace (h : isSpace c = true) (cs : List Char) : Stops (c :: cs) := by
  intro d hd
  obtain rfl := Option.some.inj hd
  by_contra hc
  rw [isSpace_of_isAtomChar (by simpa using hc)] at h
  cases h

theorem Writes.stops (h : Writes t s) (u : List Char) : Stops (s.toList ++ u) := by
  obtain ⟨c, p, ht, ⟨hc, -⟩, -⟩ := h.exists_cons
  have hskip := h.2
  rw [ht] at hskip
  cases hs : s.toList with
  | nil => simp [hs, skip] at hskip
  | cons b bs =>
    by_cases hb : isSpace b = true
    · exact stops_of_isSpace hb _
    · intro d hd
      rw [hs, skip_cons (by simpa using hb)] at hskip
      exact Option.some.inj hd ▸ (List.cons.inj hskip).1 ▸ hc

theorem atom_congr (h : skip cs = skip cs') : atom cs = atom cs' := by
  simp [atom, plainAtom, quotedAtom, h]

theorem atom_written (hs : IsPlain s) (hrest : Stops rest)
    (hcs : skip cs = skip (s.toList ++ rest)) : atom cs = some (s, rest) := by
  obtain ⟨c, p, hp⟩ := exists_cons_of_ne_nil hs.1
  have hskip : skip (s.toList ++ rest) = s.toList ++ rest := by
    rw [hp, cons_append, skip_cons (isSpace_of_isAtomChar (hs.2 c (by rw [hp]; simp)))]
  obtain ⟨htake, hdrop⟩ : rest.takeWhile isAtomChar = [] ∧ rest.dropWhile isAtomChar = rest := by
    cases rest with
    | nil => exact ⟨rfl, rfl⟩
    | cons d ds => simp [hrest d rfl]
  have hplain : plainAtom cs = some (s, rest) := by
    rw [plainAtom, hcs, hskip]
    simp only [takeWhile_append_of_pos hs.2, dropWhile_append_of_pos hs.2, htake, hdrop,
      append_nil]
    rw [hp]
    simp [← hp]
  rw [atom, hplain]
  rfl

/-- No atom comes next: no text is left, or a sign follows. -/
def NoAtom (cs : List Char) : Prop := ∀ c ∈ next cs, isAtomChar c = false ∧ c ≠ '\''

theorem atom_eq_none (h : NoAtom cs) : atom cs = none := by
  simp only [atom, plainAtom, quotedAtom]
  rw [NoAtom, next] at h
  cases hcs : skip cs with
  | nil => rfl
  | cons c ds =>
    obtain ⟨hc, hquote⟩ := h c (by rw [hcs]; rfl)
    simp only [takeWhile_cons, hc]
    simp [hquote]

end Grammar

open Grammar

structure Goal.IsPlain (g : Goal) : Prop where
  functor : Grammar.IsPlain g.functor
  args : ∀ a ∈ g.args, Grammar.IsPlain a

namespace Grammar

theorem goal_congr (h : skip cs = skip cs') : goal cs = goal cs' := by
  rw [goal, goal, atom_congr h]

theorem arguments_written {a : String} {args : List String}
    (h : ∀ b ∈ a :: args, IsPlain b) (rest : List Char) :
    arguments ('(' :: ((",".intercalate (a :: args)).toList ++ ')' :: rest)) =
      some (a :: args, rest) := by
  have hsep : Writes "," "," := by decide
  have hopen : token "(" ('(' :: ((",".intercalate (a :: args)).toList ++ ')' :: rest)) =
      some ((), (",".intercalate (a :: args)).toList ++ ')' :: rest) :=
    token_eq_some (skip_cons rfl _)
  obtain ⟨left, hleft, hor⟩ : Reads (itemList "," atom)
      ((",".intercalate (a :: args)).toList ++ ')' :: rest) (a :: args) (')' :: rest) := by
    refine itemList_written String.toList Stops hsep hsep.stops ?_ ?_ ?_ ?_
    · intro c hc
      obtain rfl := Option.some.inj hc
      rfl
    · exact token_eq_none rfl (by rw [next_cons rfl]; decide)
    · exact fun b hb u hu cs hcs => ⟨u, atom_written (h b hb) hu hcs, .inl rfl⟩
    · rw [String.toList_intercalate]
  have hclose : token ")" left = some ((), rest) :=
    token_eq_some ((skip_of_left hor).trans (skip_cons rfl _))
  simp only [arguments, hopen, hleft, hclose, Option.bind_eq_bind, Option.bind_some]
  rfl

/-- A text with which a goal does not go on. -/
structure Ends (cs : List Char) : Prop where
  stops : Stops cs
  next_ne : next cs ≠ some '('

theorem goal_written (hg : g.IsPlain) (hrest : Ends rest)
    (hcs : skip cs = skip (g.text.toList ++ rest)) : Reads goal cs g rest := by
  obtain ⟨functor, args⟩ := g
  rw [Reads, goal_congr hcs, goal]
  cases args with
  | nil =>
    have hatom : atom (functor.toList ++ rest) = some (functor, rest) :=
      atom_written hg.functor hrest.stops rfl
    have hopen : token "(" rest = none := token_eq_none rfl hrest.next_ne
    have hargs : arguments rest = none := by
      rw [arguments, hopen]
      rfl
    simp [Goal.text, hatom, hargs]
  | cons a args =>
    set u := '(' :: ((",".intercalate (a :: args)).toList ++ ')' :: rest) with hu
    have htext : (Goal.text ⟨functor, a :: args⟩).toList ++ rest = functor.toList ++ u := by
      simp [Goal.text, hu]
    have hatom : atom (functor.toList ++ u) = some (functor, u) := by
      refine atom_written hg.functor (fun c hc => ?_) rfl
      obtain rfl := Option.some.inj hc
      rfl
    have hargs : arguments u = some (a :: args, rest) := arguments_written hg.args rest
    rw [htext]
    simp [hatom, hargs]

theorem Writes.ends (h : Writes t s) (u : List Char) : Ends (s.toList ++ u) ∧
    next (s.toList ++ u) = t.toList.head? := by
  obtain ⟨c, p, ht, -, -, hc⟩ := h.exists_cons
  have hnext : next (s.toList ++ u) = t.toList.head? := by
    rw [next, h.skip_append_eq, ht]
    rfl
  exact ⟨⟨h.stops u, by simpa [hnext, ht] using hc⟩, hnext⟩

/-- Goals as they are joined. -/
def joined (sep : String) (gs : List Goal) : List Char := (sep.intercalate (gs.map Goal.text)).toList

/-- Goals are read back before what is no separator. -/
theorem goals_written (hsep : Writes (goalSeparator d) sep) (hne : gs ≠ [])
    (hgs : ∀ g ∈ gs, g.IsPlain) (hrest : Ends rest)
    (hnext : token (goalSeparator d) rest = none)
    (hcs : skip cs = skip (joined sep gs ++ rest)) : Reads (goals d) cs gs rest := by
  obtain ⟨g, gs, rfl⟩ := exists_cons_of_ne_nil hne
  refine itemList_written (fun g => g.text.toList) Ends hsep (fun u => (hsep.ends u).1) hrest hnext
    (fun g hg u hu cs hcs => goal_written (hgs g hg) hu hcs) ?_
  rw [hcs, joined, String.toList_intercalate, map_map]
  rfl

end Grammar

/-- Plain goals and features, and a generator only with features. -/
structure Rule.IsPlain (r : Rule) : Prop where
  head : ∃ g, r.head = some g ∧ g.IsPlain
  body : ∀ g ∈ r.body, g.IsPlain
  features : ∀ gs, r.features = some gs → gs ≠ [] ∧ ∀ g ∈ gs, g.IsPlain
  generator : ∀ gs, r.generator = some gs → r.features.isSome ∧ gs ≠ [] ∧ ∀ g ∈ gs, g.IsPlain

def Rule.IsBare (r : Rule) : Prop := r.body = [] ∧ r.features = none

namespace Grammar

/-- The signs with which the parts of a rule start or go on. -/
def marks : Dialect → List Char
  | .clause => [',', ':', '\x7b']
  | .operator => ['&', '|', '/']

/-- What may follow the goals of a rule without being part of it. -/
structure Over (d : Dialect) (cs : List Char) : Prop where
  ends : Ends cs
  notMem : ∀ c ∈ next cs, c ∉ marks d

theorem token_eq_none_of_notMem (h : ∀ c ∈ next cs, c ∉ marks d) (ht : t.toList = c :: p)
    (hc : c ∈ marks d) : token t cs = none :=
  token_eq_none ht fun hnext => h c hnext hc

theorem Writes.over (h : Writes t s) (ht : t.toList = c :: p)
    (hc : c ∉ marks d) (u : List Char) : Over d (s.toList ++ u) := by
  obtain ⟨hends, hnext⟩ := h.ends u
  refine ⟨hends, fun b hb => ?_⟩
  rw [hnext, ht] at hb
  exact Option.some.inj hb ▸ hc

theorem Over.separator (h : Over d cs) :
    token (goalSeparator d) cs = none := by
  cases d
  · exact token_eq_none_of_notMem h.notMem rfl (by decide)
  · exact token_eq_none_of_notMem h.notMem rfl (by decide)

theorem toList_goalsText (opening sep closing : String) (hgs : gs ≠ []) :
    (Rule.goalsText opening sep closing (some gs)).toList =
      opening.toList ++ (joined sep gs ++ closing.toList) := by
  obtain ⟨g, gs, rfl⟩ := exists_cons_of_ne_nil hgs
  simp [Rule.goalsText, joined]

/-- Goals end before a sign, or where there is none. -/
theorem ends_goalsText (ht : Writes t opening)
    (hne : t.toList.head? ≠ (goalSeparator d).toList.head?) (sep closing : String)
    {gs : Option (List Goal)} (hgs : ∀ gs', gs = some gs' → gs' ≠ [])
    (hrest : Over d rest) :
    let cs := (Rule.goalsText opening sep closing gs).toList ++ rest
    (Ends cs ∧ token (goalSeparator d) cs = none) ∧
      (gs ≠ none → NoAtom cs) := by
  cases gs with
  | none => exact ⟨⟨hrest.ends, hrest.separator⟩, fun h => absurd rfl h⟩
  | some gs =>
    rw [toList_goalsText _ _ _ (hgs gs rfl), append_assoc]
    obtain ⟨hends, hnext⟩ := ht.ends (joined sep gs ++ closing.toList ++ rest)
    refine ⟨⟨hends, ?_⟩, fun _ c hc => ?_⟩
    · cases d
      · exact token_eq_none rfl (by rw [hnext]; exact hne)
      · exact token_eq_none rfl (by rw [hnext]; exact hne)
    · obtain ⟨b, p, hb, hatom, -⟩ := ht.exists_cons
      rw [hnext, hb] at hc
      exact Option.some.inj hc ▸ hatom

/-- The goals of a generator are read back. -/
theorem goalsAfter_written (ht : Writes t opening)
    (hsep : Writes (goalSeparator d) sep)
    (hgenerator : ∀ gs, generator = some gs → gs ≠ [] ∧ ∀ g ∈ gs, g.IsPlain)
    (hrest : Over d rest) (hnone : token t rest = none)
    (hcs : skip cs = skip ((Rule.goalsText opening sep "" generator).toList ++ rest)) :
    ∃ left, goalsAfter t d cs = (generator, left) ∧ (left = rest ∨ left = skip rest) := by
  cases generator with
  | none =>
    refine ⟨skip cs, ?_, .inr hcs⟩
    rw [goalsAfter, (token_congr hcs t).trans hnone]
    rfl
  | some gs =>
    obtain ⟨hne, hplain⟩ := hgenerator gs rfl
    rw [toList_goalsText _ _ _ hne, append_assoc, append_assoc] at hcs
    obtain ⟨start, htoken, hstart, -⟩ := ht.token_eq hcs
    obtain ⟨left, hleft, hor⟩ :=
      goals_written hsep hne hplain hrest.ends hrest.separator hstart
    refine ⟨left, ?_, hor⟩
    rw [goalsAfter, htoken]
    simp [hleft]

/-- The features of a rule and their generator, as a dialect writes them. -/
def featureText (features generator : Option (List Goal)) : Dialect → String
  | .clause =>
    Rule.goalsText " \x7b" "," (Rule.goalsText " : " "," "" generator ++ "\x7d") features
  | .operator => Rule.goalsText " // " " & " (Rule.goalsText " | " " & " "" generator) features

theorem featureBlock_written {features : List Goal} (hne : features ≠ [])
    (hfeatures : ∀ g ∈ features, g.IsPlain)
    (hgenerator : ∀ gs, generator = some gs → gs ≠ [] ∧ ∀ g ∈ gs, g.IsPlain)
    (hrest : Over d rest)
    (hcs : skip cs = skip ((featureText (some features) generator d).toList ++ rest)) :
    Reads (featureBlock d) cs (features, generator) rest := by
  have hgs (gs : List Goal) (h : generator = some gs) : gs ≠ [] := (hgenerator gs h).1
  cases d with
  | clause =>
    have hover : Over .clause ('\x7d' :: rest) :=
      Writes.over (t := "\x7d") (s := "\x7d") (by decide) rfl (by decide) rest
    rw [featureText, toList_goalsText _ _ _ hne, String.toList_append, append_assoc,
      append_assoc, append_assoc] at hcs
    obtain ⟨start, hopen, hstart, -⟩ := Writes.token_eq (t := "\x7b") (by decide) hcs
    obtain ⟨⟨hends, hsep⟩, -⟩ := ends_goalsText (by decide : Writes ":" " : ")
      (by decide) "," "" hgs hover
    obtain ⟨left, hleft, hor⟩ := goals_written (by decide) hne hfeatures hends hsep hstart
    obtain ⟨left', hafter, hor'⟩ := goalsAfter_written (t := ":") (by decide) (by decide)
      hgenerator hover (token_eq_none_of_notMem hover.notMem rfl (by decide))
      (skip_of_left hor)
    have hclose : token "\x7d" left' = some ((), rest) :=
      token_eq_some ((skip_of_left hor').trans (skip_cons rfl _))
    refine ⟨rest, ?_, .inl rfl⟩
    simp [featureBlock, hopen, hleft, hafter, hclose]
  | operator =>
    rw [featureText, toList_goalsText _ _ _ hne, append_assoc, append_assoc] at hcs
    obtain ⟨start, hopen, hstart, -⟩ := Writes.token_eq (t := "//") (by decide) hcs
    obtain ⟨⟨hends, hsep⟩, -⟩ := ends_goalsText (by decide : Writes "|" " | ")
      (by decide) " & " "" hgs hrest
    obtain ⟨left, hleft, hor⟩ := goals_written (by decide) hne hfeatures hends hsep hstart
    obtain ⟨left', hafter, hor'⟩ := goalsAfter_written (t := "|") (by decide) (by decide)
      hgenerator hrest (token_eq_none_of_notMem hrest.notMem rfl (by decide))
      (skip_of_left hor)
    refine ⟨left', ?_, hor'⟩
    simp [featureBlock, hopen, hleft, hafter]

/-- Without the sign of a feature block there is none. -/
theorem featureBlock_eq_none (h : ∀ c ∈ next cs, c ∉ marks d) :
    featureBlock d cs = none := by
  cases d with
  | clause =>
    have hnone : token "\x7b" cs = none := token_eq_none_of_notMem h rfl (by decide)
    simp [featureBlock, hnone]
  | operator =>
    have hnone : token "//" cs = none := token_eq_none_of_notMem h rfl (by decide)
    simp [featureBlock, hnone]

theorem optionalGoals_eq_nil (h : NoAtom cs) : optionalGoals d cs = ([], skip cs) := by
  have hnone : goal cs = none := by
    rw [goal, atom_eq_none h]
    rfl
  rw [optionalGoals, goals, itemList, hnone]
  rfl

/-- The goals of a body are read back, also if there are none. -/
theorem optionalGoals_written (hsep : Writes (goalSeparator d) sep)
    (hgs : ∀ g ∈ gs, g.IsPlain) (hrest : Ends rest ∧ token (goalSeparator d) rest = none)
    (hnil : gs = [] → NoAtom rest)
    (hcs : skip cs = skip (joined sep gs ++ rest)) :
    ∃ left, optionalGoals d cs = (gs, left) ∧ (left = rest ∨ left = skip rest) := by
  by_cases hgs' : gs = []
  · subst hgs'
    refine ⟨skip cs, optionalGoals_eq_nil ?_, .inr hcs⟩
    rw [NoAtom, next_congr hcs]
    exact hnil rfl
  · obtain ⟨left, hleft, hor⟩ := goals_written hsep hgs' hgs hrest.1 hrest.2 hcs
    exact ⟨left, by rw [optionalGoals, hleft]; rfl, hor⟩

/-- The sign between head and body, as a dialect writes it. -/
def neckText : Dialect → String
  | .clause => " :- "
  | .operator => " <= "

theorem writes_neck (d : Dialect) : Writes (neck d) (neckText d) := by cases d <;> decide

def bodySeparator : Dialect → String
  | .clause => ", "
  | .operator => " & "

theorem writes_bodySeparator (d : Dialect) : Writes (goalSeparator d) (bodySeparator d) := by
  cases d <;> decide

/-- What closes a rule. -/
def close : Dialect → List Char
  | .clause => ['.']
  | .operator => []

theorem optionalGoals_congr (h : skip cs = skip cs') (d : Dialect) :
    optionalGoals d cs = optionalGoals d cs' := by
  rw [optionalGoals, goals, itemList, goal_congr h, h]
  rfl

/-- A rule is read as its head, its goals and its features. -/
theorem rule_of_parts (hg : g.IsPlain)
    (hcs : skip cs = skip (g.text.toList ++ ((neckText d).toList ++ u))) {body : List Goal}
    (hbody : optionalGoals d u = (body, left)) {block : Option (List Goal × Option (List Goal))}
    {left' : List Char} (hblock : (featureBlock d left = none ∧ block = none ∧ left' = skip left) ∨
      ∃ b, featureBlock d left = some (b, left') ∧ block = some b)
    (hclose : left' = close d ++ rest ∨ left' = skip (close d ++ rest)) :
    Reads (rule d) cs ⟨some g, body, block.map (·.1), block.bind (·.2)⟩ rest := by
  obtain ⟨after, hhead, hor⟩ := goal_written hg ((writes_neck d).ends u).1 hcs
  obtain ⟨start, hneck, hstart, -⟩ := (writes_neck d).token_eq (skip_of_left hor)
  rw [← optionalGoals_congr hstart] at hbody
  cases d with
  | clause =>
    have hstop : token "." left' = some ((), rest) :=
      token_eq_some ((skip_of_left hclose).trans (skip_cons rfl _))
    refine ⟨rest, ?_, .inl rfl⟩
    rcases hblock with ⟨hb, rfl, rfl⟩ | ⟨b, hb, rfl⟩ <;>
    · simp [rule, hhead, hneck, hbody, hb, hstop]
  | operator =>
    refine ⟨left', ?_, hclose⟩
    rcases hblock with ⟨hb, rfl, rfl⟩ | ⟨b, hb, rfl⟩ <;>
    · simp [rule, hhead, hneck, hbody, hb]

end Grammar

namespace Rule

open Grammar

theorem IsPlain.generator_eq_none (hr : r.IsPlain) (hf : r.features = none) :
    r.generator = none := by
  cases hgen : r.generator with
  | none => rfl
  | some gs => simpa [hf] using (hr.generator gs hgen).1

theorem toList_text (hg : r.head = some g) (d : Dialect) :
    (r.text d).toList = g.text.toList ++ ((neckText d).toList ++ (joined (bodySeparator d) r.body ++
      ((featureText r.features r.generator d).toList ++ close d))) := by
  cases d <;> simp [text, headText, hg, neckText, bodySeparator, featureText, close, joined]

end Rule

namespace Grammar

/-- A plain rule is read back before what cannot be part of it. -/
theorem rule_written (hr : r.IsPlain) (hrest : Over d (close d ++ rest))
    (hbare : r.IsBare → NoAtom (close d ++ rest))
    (hcs : skip cs = skip ((r.text d).toList ++ rest)) :
    Reads (rule d) cs r rest := by
  obtain ⟨g, hg, hplain⟩ := hr.head
  rw [Rule.toList_text hg] at hcs
  simp only [append_assoc] at hcs
  set v := (featureText r.features r.generator d).toList ++ (close d ++ rest) with hv
  have hne (fs : List Goal) (hf : r.features = some fs) : fs ≠ [] := (hr.features fs hf).1
  obtain ⟨hends, hnext⟩ : (Ends v ∧ token (goalSeparator d) v = none) ∧
      (r.features ≠ none → NoAtom v) := by
    cases d
    · exact ends_goalsText (t := "\x7b") (by decide) (by decide) _ _ hne hrest
    · exact ends_goalsText (t := "//") (by decide) (by decide) _ _ hne hrest
  have hnone (hf : r.features = none) : v = close d ++ rest := by
    rw [hv, hf]
    cases d <;> rfl
  obtain ⟨left, hbody, hor⟩ := optionalGoals_written (writes_bodySeparator d) hr.body hends
    (fun hbody => by
      by_cases hf : r.features = none
      · exact hnone hf ▸ hbare ⟨hbody, hf⟩
      · exact hnext hf) (rfl : skip (joined (bodySeparator d) r.body ++ v) = _)
  obtain ⟨head, body, features, generator⟩ := r
  obtain rfl : head = some g := hg
  cases features with
  | none =>
    obtain rfl : generator = none := hr.generator_eq_none rfl
    have hskip := skip_of_left hor
    rw [hnone rfl] at hskip
    have hblock : featureBlock d left = none :=
      featureBlock_eq_none (next_congr hskip ▸ hrest.notMem)
    exact rule_of_parts hplain hcs hbody (.inl ⟨hblock, rfl, rfl⟩) (.inr hskip)
  | some fs =>
    obtain ⟨left', hblock, hor'⟩ := featureBlock_written (hne fs rfl) (hr.features fs rfl).2
      (fun gs hgs => (hr.generator gs hgs).2) hrest (skip_of_left hor)
    exact rule_of_parts hplain hcs hbody (.inr ⟨_, hblock, rfl⟩) hor'

/-- A bare rule takes the head of the next rule for its goal. -/
theorem rule_swallows (hr : r.IsPlain) (hbare : r.IsBare) (hg : g.IsPlain)
    (hws : ∀ c ∈ ws, isSpace c = true) (hcs : skip cs = skip ((r.text .operator).toList ++
      (ws ++ (g.text.toList ++ (" <= ".toList ++ u))))) :
    Reads (rule .operator) cs { r with body := [g] } (" <= ".toList ++ u) := by
  obtain ⟨head, hhead, hplain⟩ := hr.head
  obtain ⟨hbody, hf⟩ := hbare
  have hgen := hr.generator_eq_none hf
  have hover : Over .operator (" <= ".toList ++ u) :=
    (writes_neck .operator).over rfl (by decide) u
  have hgoal : skip (ws ++ (g.text.toList ++ (" <= ".toList ++ u))) =
      skip (joined (bodySeparator .operator) [g] ++ (" <= ".toList ++ u)) := by
    rw [skip_append hws, joined]
    simp
  obtain ⟨left, hgoals, hor⟩ := optionalGoals_written (writes_bodySeparator .operator)
    (by simpa using hg) ⟨hover.ends, hover.separator⟩ (by simp) hgoal
  have hskip := skip_of_left hor
  have hblock : featureBlock .operator left = none :=
    featureBlock_eq_none (next_congr hskip ▸ hover.notMem)
  rw [Rule.toList_text hhead, hbody, hf] at hcs
  rw [hhead, hf, hgen]
  exact rule_of_parts hplain (hcs.trans (by simp [joined, featureText, Rule.goalsText, close]))
    hgoals (.inl ⟨hblock, rfl, rfl⟩) (.inr hskip)

end Grammar

end BeliefLogic
