import Mathlib
import BeliefLogic.Text.Decimal

/-!
# Lines and fields

Lines and fields are read back unless they hold line ends, separators or outer blanks.
-/

namespace BeliefLogic.Text

open List

variable {s : String} {cs : List Char}

variable {sep : Char}

theorem cut_append_cons (as bs : List Char) :
    cut sep (as ++ sep :: bs) = cut sep as ++ cut sep bs := by
  induction as with
  | nil => simp [cut]
  | cons a as ih =>
    rw [cons_append, cut, cut, ih]
    split
    · rfl
    · cases hcut : cut sep as with
      | nil => exact absurd hcut (cut_ne_nil sep as)
      | cons piece rest => rfl

theorem cut_of_notMem {as : List Char} (h : sep ∉ as) : cut sep as = [as] := by
  induction as with
  | nil => rfl
  | cons a as ih =>
    rw [mem_cons, not_or] at h
    rw [cut, if_neg (Ne.symm h.1), ih h.2]

theorem fields_of_notMem (h : sep ∉ s.toList) : fields sep s = [s] := by
  rw [fields, cut_of_notMem h]
  simp

/-- Fields that are joined by a separator are read back. -/
theorem fields_intercalate {c : Char} {t x : String} {xs : List String} (ht : t.toList = [c])
    (h : ∀ y ∈ x :: xs, c ∉ y.toList) : fields c (t.intercalate (x :: xs)) = x :: xs := by
  rw [fields, String.toList_intercalate, ht]
  induction xs generalizing x with
  | nil => simp [cut_of_notMem (h x mem_cons_self)]
  | cons y ys ih =>
    obtain ⟨hx, hys⟩ := forall_mem_cons.1 h
    rw [map_cons, map_cons, intercalate_cons_cons, append_assoc, singleton_append, cut_append_cons,
      cut_of_notMem hx, map_append, ← map_cons, ih hys]
    simp

theorem dropLeading?_append (p cs : List Char) : dropLeading? p (p ++ cs) = some cs := by
  induction p with
  | nil => rfl
  | cons a p ih => simp [dropLeading?, ih]

theorem endsWith_append (s tail : String) : endsWith tail (s ++ tail) = true := by
  simp [endsWith, dropLeading?_append]

theorem exists_of_endsWith_singleton {c : Char} (h : endsWith (String.singleton c) s = true) :
    ∃ cs, s.toList = cs ++ [c] := by
  obtain ⟨rest, hrest⟩ := Option.isSome_iff_exists.1 h
  have heq := eq_append_of_dropLeading? hrest
  refine ⟨rest.reverse, ?_⟩
  have := congrArg List.reverse heq
  simpa using this

/-- Nothing is dropped if and only if no end is blank. -/
theorem stripChars_eq_self_iff :
    stripChars cs = cs ↔
      (∀ c ∈ cs.head?, isBlank c = false) ∧ ∀ c ∈ cs.getLast?, isBlank c = false := by
  have hdrop (ds : List Char) :
      ds.dropWhile isBlank = ds ↔ ∀ c ∈ ds.head?, isBlank c = false := by
    cases ds with
    | nil => simp
    | cons d ds =>
      by_cases hd : isBlank d = true
      · have hlength := length_dropWhile_le isBlank ds
        simp only [dropWhile_cons, hd, head?_cons, Option.mem_some_iff, forall_eq',
          Bool.true_eq_false, iff_false]
        intro h
        have := congrArg List.length h
        simp at this
        omega
      · simp
  rw [← head?_reverse, ← hdrop, ← hdrop]
  constructor
  · intro h
    have hlength := congrArg List.length h
    rw [stripChars, length_reverse] at hlength
    have houter := length_dropWhile_le isBlank (cs.dropWhile isBlank).reverse
    have hinner := length_dropWhile_le isBlank cs
    rw [length_reverse] at houter
    have hfirst : cs.dropWhile isBlank = cs :=
      (dropWhile_suffix isBlank).eq_of_length (by omega)
    refine ⟨hfirst, ?_⟩
    rw [stripChars, hfirst] at h
    exact reverse_eq_iff.1 h
  · rintro ⟨hfirst, hlast⟩
    rw [stripChars, hfirst, hlast, reverse_reverse]

theorem stripChars_append_blank {c : Char} (hc : isBlank c = true) :
    stripChars (cs ++ [c]) = stripChars cs := by
  rw [stripChars, dropWhile_append]
  split
  · next hempty =>
    rw [stripChars, List.isEmpty_iff.1 hempty]
    simp [hc]
  · rw [stripChars]
    simp [hc]

/-- A text without line ends, and without blanks at its ends. -/
def IsLine (s : String) : Prop := strip s = s ∧ '\n' ∉ s.toList ∧ '\r' ∉ s.toList

instance (s : String) : Decidable (IsLine s) :=
  inferInstanceAs (Decidable (strip s = s ∧ '\n' ∉ s.toList ∧ '\r' ∉ s.toList))

theorem isLine_empty : IsLine "" := by decide

theorem IsLine.stripChars (h : IsLine s) : stripChars s.toList = s.toList := by
  have := congrArg String.toList h.1
  rwa [strip, String.toList_ofList] at this

theorem IsLine.strip_append (h : IsLine s) : strip (s ++ "\n") = s := by
  have htext : (s ++ "\n").toList = s.toList ++ ['\n'] := by simp
  rw [strip, htext, stripChars_append_blank (by decide), h.stripChars, String.ofList_toList]

theorem cutLines_append {rest : List Char} (hn : '\n' ∉ cs) (hr : '\r' ∉ cs) :
    cutLines (· == '\n') (cs ++ '\n' :: rest) =
      (cs ++ ['\n']) :: cutLines (· == '\n') rest := by
  induction cs with
  | nil => simp [cutLines]
  | cons c cs ih =>
    rw [mem_cons, not_or] at hn hr
    rw [cons_append, cutLines, ih hn.2 hr.2]
    · have hne : (c == '\n') = false := beq_eq_false_iff_ne.2 (Ne.symm hn.1)
      rw [hne]
      rfl
    · rintro _ rfl
      exact absurd rfl hr.1

theorem unifyNewlines_of_notMem (h : '\r' ∉ cs) : unifyNewlines cs = cs := by
  induction cs with
  | nil => rfl
  | cons c cs ih =>
    rw [mem_cons, not_or] at h
    rw [unifyNewlines, ih h.2]
    · rintro _ rfl
      exact absurd rfl h.1
    · rintro rfl
      exact absurd rfl h.1

def unlines (xs : List String) : String := String.join (xs.map (· ++ "\n"))

theorem toList_unlines (xs : List String) :
    (unlines xs).toList = xs.flatMap fun x => x.toList ++ ['\n'] := by
  simp [unlines, flatMap_map]

theorem unlines_append (xs ys : List String) : unlines (xs ++ ys) = unlines xs ++ unlines ys := by
  rw [← String.toList_inj]
  simp [toList_unlines]

theorem unlines_flatMap {β : Type} (f : β → List String) (xs : List β) :
    unlines (xs.flatMap f) = String.join (xs.map fun x => unlines (f x)) := by
  rw [← String.toList_inj]
  simp [toList_unlines, flatMap_map, flatMap_assoc]

theorem fileLines_of_notMem {xs : List String} (h : ∀ x ∈ xs, '\n' ∉ x.toList ∧ '\r' ∉ x.toList) :
    fileLines (unlines xs) = xs.map (· ++ "\n") := by
  rw [fileLines, toList_unlines]
  induction xs with
  | nil => rfl
  | cons x xs ih =>
    obtain ⟨hx, hxs⟩ := forall_mem_cons.1 h
    rw [flatMap_cons, append_assoc, singleton_append, cutLines_append hx.1 hx.2, map_cons, ih hxs]
    simp

theorem fileLines_unlines {xs : List String} (h : ∀ x ∈ xs, IsLine x) :
    fileLines (String.ofList (unifyNewlines (unlines xs).toList)) = xs.map (· ++ "\n") := by
  have hreturn : '\r' ∉ (unlines xs).toList := by
    rw [toList_unlines, mem_flatMap]
    rintro ⟨x, hx, hr⟩
    exact (h x hx).2.2 (by simpa using hr)
  rw [unifyNewlines_of_notMem hreturn, String.ofList_toList, fileLines_of_notMem fun x hx => (h x hx).2]

theorem intercalate_cons_eq (sep x : List Char) (xs : List (List Char)) :
    sep.intercalate (x :: xs) = x ++ xs.flatMap (sep ++ ·) := by
  induction xs generalizing x with
  | nil => simp
  | cons y ys ih => rw [intercalate_cons_cons, ih]; simp

theorem forall_mem_intercalate {p : Char → Prop} {sep : List Char} {xs : List (List Char)}
    (hsep : ∀ c ∈ sep, p c) (hxs : ∀ x ∈ xs, ∀ c ∈ x, p c) : ∀ c ∈ sep.intercalate xs, p c := by
  cases xs with
  | nil => simp
  | cons x xs =>
    obtain ⟨hx, hxs⟩ := forall_mem_cons.1 hxs
    intro c hc
    rw [intercalate_cons_eq, mem_append, mem_flatMap] at hc
    rcases hc with hc | ⟨y, hy, hc⟩
    · exact hx c hc
    · rcases mem_append.1 hc with hc | hc
      · exact hsep c hc
      · exact hxs y hy c hc

/-- A name that fills a line or a field at its end. -/
def IsWord (s : String) : Prop := IsLine s ∧ s ≠ "" ∧ '\t' ∉ s.toList

instance (s : String) : Decidable (IsWord s) :=
  inferInstanceAs (Decidable (IsLine s ∧ s ≠ "" ∧ '\t' ∉ s.toList))

/-- Two words make a line, whatever stands between them. -/
theorem IsWord.isLine_append {a b x : String} (ha : IsWord a) (hb : IsWord b)
    (hn : '\n' ∉ x.toList) (hr : '\r' ∉ x.toList) :
    IsLine (a ++ x ++ b) ∧ a ++ x ++ b ≠ "" := by
  have hnil {s : String} (hs : IsWord s) : s.toList ≠ [] := fun h => hs.2.1 (String.toList_inj.1 h)
  have hchars : (a ++ x ++ b).toList = a.toList ++ (x.toList ++ b.toList) := by simp
  refine ⟨⟨?_, ?_, ?_⟩, fun h => hnil ha ?_⟩
  · rw [strip, stripChars_eq_self_iff.2, String.ofList_toList]
    rw [hchars, head?_append_of_ne_nil _ (hnil ha), ← append_assoc,
      getLast?_append_of_ne_nil _ (hnil hb)]
    exact ⟨(stripChars_eq_self_iff.1 ha.1.stripChars).1,
      (stripChars_eq_self_iff.1 hb.1.stripChars).2⟩
  · simp [ha.1.2.1, hn, hb.1.2.1]
  · simp [ha.1.2.2, hr, hb.1.2.2]
  · rw [h] at hchars
    exact (append_eq_nil_iff.1 hchars.symm).1

/-- The line of a declaration is a word if its names are. -/
theorem IsWord.declaration {functor : String} {types : List String} (hf : IsWord functor)
    (htypes : ∀ type ∈ types, IsWord type) :
    IsWord (functor ++ "(" ++ ",".intercalate types ++ ")") := by
  have hmid (c : Char) (hc : c ≠ '(' ∧ c ≠ ',') (h : ∀ s, IsWord s → c ∉ s.toList) :
      c ∉ ("(" ++ ",".intercalate types).toList := by
    have hlist : ∀ c' ∈ (",".intercalate types).toList, c' ≠ c := by
      rw [String.toList_intercalate]
      refine forall_mem_intercalate (by simpa using hc.2.symm) fun x hx => ?_
      obtain ⟨type, htype, rfl⟩ := mem_map.1 hx
      exact fun c' hc' hcc' => h type (htypes type htype) (hcc' ▸ hc')
    simpa [hc.1] using fun hmem => hlist c hmem rfl
  obtain ⟨hline, hne⟩ := hf.isLine_append (b := ")") (by decide +kernel)
    (hmid '\n' (by decide) fun s hs => hs.1.2.1) (hmid '\r' (by decide) fun s hs => hs.1.2.2)
  have htab := hmid '\t' (by decide) fun s hs => hs.2.2
  rw [← String.append_assoc] at hline hne
  exact ⟨hline, hne, by simpa [hf.2.2] using htab⟩

theorem integer_of_le_two {n : ℤ} (h : 0 ≤ n ∧ n ≤ 2) : readInteger? (integer n) = some n ∧
    (∃ c, integer n = String.singleton c ∧ c ≠ '/') ∧ IsWord (integer n) := by
  obtain ⟨h0, h2⟩ := h
  interval_cases n
  · exact ⟨by decide +kernel, ⟨'0', by decide +kernel⟩, by decide +kernel⟩
  · exact ⟨by decide +kernel, ⟨'1', by decide +kernel⟩, by decide +kernel⟩
  · exact ⟨by decide +kernel, ⟨'2', by decide +kernel⟩, by decide +kernel⟩

end BeliefLogic.Text
