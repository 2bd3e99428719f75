import BeliefLogic.Proofs.Program.Queries
import BeliefLogic.Proofs.Rule.Spans

/-!
# Theories that are saved and read again

A saved rule has no sign at its end: without goals and features it takes the head of the next rule
for its goal. All other plain rules are read back.
-/

namespace BeliefLogic

open Outcome Run Grammar List Text

variable {rs before after : List Rule} {r : Rule} {cs rest : List Char} {t : Theory} {key : String}
  {gs done : List (String × List Rule)}

namespace Theory

/-- A theory to which rules were added one after the other. -/
def IsMadeOf (t : Theory) (rs : List Rule) : Prop :=
  ∃ d, rs.foldlM add { dialect := d } = .ok t

/-- The rules of a group, in the order in which they were added. -/
def filedUnder (rs : List Rule) (key : String) : List Rule :=
  rs.filter fun r => r.head.elim false fun g => g.key = key

theorem filedUnder_append_cons {g : Goal} (hr : r.head = some g) (rs rs' : List Rule) :
    filedUnder (rs ++ r :: rs') g.key = filedUnder rs g.key ++ r :: filedUnder rs' g.key := by
  simp [filedUnder, hr]

theorem find?_of_notMem (h : key ∉ gs.map (·.1)) : gs.find? (·.1 = key) = none :=
  find?_eq_none.2 fun _ he hk => h (mem_map.2 ⟨_, he, of_decide_eq_true hk⟩)

/-- The rules for a key are those that were added under it, in order. -/
theorem rulesFor?_addAll {t' : Theory} (h : rs.foldlM add t = .ok t') (k : String) :
    (t'.rulesFor? k).getD [] = (t.rulesFor? k).getD [] ++ filedUnder rs k := by
  induction rs generalizing t with
  | nil =>
    obtain rfl := Except.ok.inj h
    simp [filedUnder]
  | cons r rs ih =>
    obtain ⟨u, hu, h⟩ := then_ok.1 h
    obtain ⟨g, hg, hcases⟩ := add_ok hu
    have hstep : (u.rulesFor? k).getD [] = (t.rulesFor? k).getD [] ++ if g.key = k then [r] else [] := by
      unfold rulesFor?
      rcases hcases with ⟨before, rs, after, hold, hnew, hgroups⟩ | ⟨hnew, hgroups⟩
      · rw [hgroups, hold, find?_append, find?_append]
        by_cases hk : g.key = k
        · subst hk
          simp [find?_of_notMem hnew]
        · simp [hk]
      · rw [hgroups, find?_append]
        by_cases hk : g.key = k
        · subst hk
          simp [find?_of_notMem hnew]
        · simp [hk]
    rw [ih h, hstep]
    by_cases hk : g.key = k <;> simp [filedUnder, hg, hk]

/-- Groups under keys of their own, none of which is empty. -/
structure Grouped (t : Theory) : Prop where
  filed : t.Filed
  nodup : (t.groups.map (·.1)).Nodup
  nonempty : ∀ e ∈ t.groups, e.2 ≠ []

theorem Grouped.add {t' : Theory} (h : t.add r = .ok t') (ht : t.Grouped) : t'.Grouped := by
  obtain ⟨g, -, hcases⟩ := add_ok h
  obtain ⟨hfiled, hnodup, hnonempty⟩ := ht
  rcases hcases with ⟨before, rs, after, hold, -, hnew⟩ | ⟨hkey, hnew⟩
  · rw [hold, map_append] at hnodup
    rw [hold, forall_mem_append, forall_mem_cons] at hnonempty
    refine ⟨filed_add h hfiled, ?_, ?_⟩
    · rw [hnew, map_append]
      exact hnodup
    · rw [hnew, forall_mem_append, forall_mem_cons]
      exact ⟨hnonempty.1, by simp, hnonempty.2.2⟩
  · refine ⟨filed_add h hfiled, ?_, ?_⟩
    · rw [hnew, map_append]
      exact nodup_append'.2 ⟨hnodup, nodup_singleton _, disjoint_singleton.2 hkey⟩
    · rw [hnew]
      exact forall_mem_append.2 ⟨hnonempty, by simp⟩

theorem IsMadeOf.grouped (h : t.IsMadeOf rs) : t.Grouped := by
  obtain ⟨d, h⟩ := h
  have hempty : ({ dialect := d } : Theory).Grouped := ⟨by simp [Filed], by simp, by simp⟩
  generalize ({ dialect := d } : Theory) = t0 at h hempty
  induction rs generalizing t0 with
  | nil => exact Except.ok.inj h ▸ hempty
  | cons r rs ih =>
    obtain ⟨u, hu, h⟩ := then_ok.1 h
    exact ih u h (hempty.add hu)

theorem fileUnder_append (r : Rule) (h : key ∉ done.map (·.1)) (rest : List (String × List Rule)) :
    fileUnder key r (done ++ rest) = done ++ fileUnder key r rest := by
  induction done with
  | nil => rfl
  | cons e done ih =>
    rw [map_cons, mem_cons, not_or] at h
    rw [cons_append, fileUnder, if_neg (Ne.symm h.1), ih h.2]
    rfl

theorem foldlM_add_group (hrs : ∀ r ∈ rs, ∃ g, r.head = some g ∧ g.key = key) {d : Dialect}
    (hdone : key ∉ done.map (·.1)) (old : List Rule) :
    rs.foldlM add ⟨d, done ++ [(key, old)]⟩ = .ok ⟨d, done ++ [(key, old ++ rs)]⟩ := by
  induction rs generalizing old with
  | nil => simp
  | cons r rs ih =>
    obtain ⟨⟨g, hg, hkey⟩, hothers⟩ := forall_mem_cons.1 hrs
    have hadd : add ⟨d, done ++ [(key, old)]⟩ r = .ok ⟨d, done ++ [(key, old ++ [r])]⟩ := by
      simp only [add, hg, hkey]
      rw [fileUnder_append r hdone, fileUnder, if_pos rfl]
    rw [foldlM_cons, hadd]
    refine (ih hothers (old ++ [r])).trans ?_
    rw [append_assoc, singleton_append]

/-- Adding the rules of groups, group after group, makes the same groups. -/
theorem foldlM_add_groups {d : Dialect}
    (hfiled : ∀ e ∈ gs, ∀ r ∈ e.2, ∃ g, r.head = some g ∧ g.key = e.1)
    (hnonempty : ∀ e ∈ gs, e.2 ≠ []) (hnodup : ((done ++ gs).map (·.1)).Nodup) :
    (gs.flatMap (·.2)).foldlM add ⟨d, done⟩ = .ok ⟨d, done ++ gs⟩ := by
  induction gs generalizing done with
  | nil => simp
  | cons e gs ih =>
    obtain ⟨key, rs⟩ := e
    obtain ⟨hfirst, hothers⟩ := forall_mem_cons.1 hfiled
    obtain ⟨hne, hnonempty'⟩ := forall_mem_cons.1 hnonempty
    obtain ⟨r, rs, rfl⟩ := exists_cons_of_ne_nil hne
    obtain ⟨⟨g, hg, hkey⟩, hrs⟩ := forall_mem_cons.1 hfirst
    have hnew : key ∉ done.map (·.1) := by
      intro hmem
      rw [map_append] at hnodup
      exact (nodup_append.1 hnodup).2.2 key hmem key mem_cons_self rfl
    have hadd : add ⟨d, done⟩ r = .ok ⟨d, done ++ [(key, [r])]⟩ := by
      have hend := fileUnder_append r hnew []
      rw [append_nil] at hend
      simp only [add, hg, hkey, hend]
      rfl
    rw [flatMap_cons, foldlM_append, foldlM_cons, hadd]
    have hgroup := foldlM_add_group (d := d) hrs hnew [r]
    simp only [Except.bind, bind] at hgroup ⊢
    rw [hgroup]
    have hrest : (gs.flatMap (·.2)).foldlM add ⟨d, done ++ [(key, r :: rs)]⟩ =
        .ok ⟨d, done ++ [(key, r :: rs)] ++ gs⟩ := ih hothers hnonempty' (by simpa using hnodup)
    simpa using hrest

theorem IsMadeOf.rules (h : t.IsMadeOf rs) (d : Dialect) :
    t.rules.foldlM add { dialect := d } = .ok { dialect := d, groups := t.groups } := by
  have ht := h.grouped
  exact foldlM_add_groups ht.filed ht.nonempty ht.nodup

/-- The rules of a theory as they are compared. -/
def texts (t : Theory) : List String := t.rules.map (·.text .operator)

theorem length_texts (t : Theory) : t.texts.length = t.size := by
  obtain ⟨d, groups⟩ := t
  simp only [texts, rules, length_map]
  induction groups with
  | nil => rfl
  | cons e groups ih => rw [flatMap_cons, length_append, ih]; rfl

/-- Lists agree member by member if one of them starts with the other. -/
theorem all_zip_iff (f : Rule → String) (rs ss : List Rule) :
    ((rs.zip ss).all fun p => f p.1 == f p.2) = true ↔
      rs.map f <+: ss.map f ∨ ss.map f <+: rs.map f := by
  induction rs generalizing ss with
  | nil => simp
  | cons r rs ih =>
    cases ss with
    | nil => simp
    | cons s ss =>
      rw [zip_cons_cons, all_cons, Bool.and_eq_true, beq_iff_eq, ih ss, map_cons, map_cons,
        cons_prefix_cons, cons_prefix_cons, eq_comm, ← and_or_left]

theorem agrees_iff (t u : Theory) :
    t.agrees u = true ↔ t.texts <+: u.texts ∨ u.texts <+: t.texts :=
  all_zip_iff (·.text .operator) t.rules u.rules

/-- Theories agree exactly if the texts of one start with those of the other, and are the same
exactly if they also have as many rules. Agreeing is reflexive and symmetric, and is passed on by a
theory that is not the shortest. -/
theorem agrees_laws (t u v : Theory) :
    (t.agrees u = true ↔ t.texts <+: u.texts ∨ u.texts <+: t.texts) ∧
      (t.texts = u.texts ↔ t.agrees u = true ∧ t.size = u.size) ∧
      t.agrees t = true ∧ t.agrees u = u.agrees t ∧
      (t.agrees u = true ∧ u.agrees v = true ∧ (t.size ≤ u.size ∨ v.size ≤ u.size) →
        t.agrees v = true) := by
  have hsymm : t.agrees u = u.agrees t := by
    rw [Bool.eq_iff_iff, agrees_iff, agrees_iff, or_comm]
  simp only [agrees_iff, ← length_texts]
  refine ⟨trivial, ⟨fun h => h ▸ ⟨.inl prefix_rfl, rfl⟩, ?_⟩, .inl prefix_rfl, hsymm, ?_⟩
  · rintro ⟨h | h, hlength⟩
    · exact h.eq_of_length hlength
    · exact (h.eq_of_length hlength.symm).symm
  · -- the theory in the middle starts with the shorter one of the other two
    have hmiddle {xs ys zs : List String} (h : xs <+: ys ∨ ys <+: xs) (h' : ys <+: zs ∨ zs <+: ys)
        (hle : xs.length ≤ ys.length) : xs <+: zs ∨ zs <+: xs := by
      have hxy : xs <+: ys := h.elim id fun h => (h.eq_of_length_le hle) ▸ prefix_rfl
      rcases h' with h' | h'
      · exact .inl (hxy.trans h')
      · exact prefix_or_prefix_of_prefix hxy h'
    rintro ⟨h, h', hle | hle⟩
    · exact hmiddle h h' hle
    · exact (hmiddle h'.symm h.symm hle).symm

end Theory

namespace Text

theorem expandTabs_of_notMem (h : '\t' ∉ cs) : expandTabs cs = cs := by
  have key (column : ℕ) : expandTabs.go column cs = cs := by
    induction cs generalizing column with
    | nil => rfl
    | cons c cs ih =>
      obtain ⟨hc, hcs⟩ := not_or.1 (mem_cons.not.1 h)
      rw [expandTabs.go, if_neg (Ne.symm hc)]
      split <;> rw [ih hcs]
  exact key 0

end Text

namespace Grammar

/-- A character that is not expanded and ends no line. -/
def IsClean (c : Char) : Prop := c ≠ '\t' ∧ c ≠ '\n' ∧ c ≠ '\r'

instance (c : Char) : Decidable (IsClean c) := inferInstanceAs (Decidable (_ ∧ _))

theorem isClean_of_isAtomChar {c : Char} (h : isAtomChar c = true) : IsClean c := by
  refine ⟨?_, ?_, ?_⟩ <;> rintro rfl <;> revert h <;> decide

theorem IsPlain.isClean {a : String} (ha : IsPlain a) : ∀ c ∈ a.toList, IsClean c :=
  fun c hc => isClean_of_isAtomChar (ha.2 c hc)

theorem isClean_text {g : Goal} (hg : g.IsPlain) : ∀ c ∈ g.text.toList, IsClean c := by
  have hargs : ∀ c ∈ (",".intercalate g.args).toList, IsClean c := by
    rw [String.toList_intercalate]
    refine forall_mem_intercalate (by simp [IsClean]) fun x hx => ?_
    obtain ⟨a, ha, rfl⟩ := mem_map.1 hx
    exact (hg.args a ha).isClean
  intro c hc
  unfold Goal.text at hc
  split at hc
  · exact hg.functor.isClean c hc
  · simp only [String.toList_append, mem_append] at hc
    rcases hc with ((hc | hc) | hc) | hc
    · exact hg.functor.isClean c hc
    · exact mem_singleton.1 hc ▸ by decide
    · exact hargs c hc
    · exact mem_singleton.1 hc ▸ by decide

theorem isClean_joined {sep : String} (hsep : ∀ c ∈ sep.toList, IsClean c) {gs : List Goal}
    (hgs : ∀ g ∈ gs, g.IsPlain) : ∀ c ∈ joined sep gs, IsClean c := by
  rw [joined, String.toList_intercalate, map_map]
  refine forall_mem_intercalate hsep fun x hx => ?_
  obtain ⟨g, hg, rfl⟩ := mem_map.1 hx
  exact isClean_text (hgs g hg)

theorem isClean_goalsText {opening sep closing : String}
    (hsigns : ∀ c ∈ opening.toList ++ sep.toList, IsClean c) (hclosing : ∀ c ∈ closing.toList, IsClean c)
    {goals : Option (List Goal)} (hgoals : ∀ gs, goals = some gs → gs ≠ [] ∧ ∀ g ∈ gs, g.IsPlain) :
    ∀ c ∈ (Rule.goalsText opening sep closing goals).toList, IsClean c := by
  cases goals with
  | none => simp [Rule.goalsText]
  | some gs =>
    obtain ⟨hopening, hsep⟩ := forall_mem_append.1 hsigns
    rw [toList_goalsText _ _ _ (hgoals gs rfl).1]
    exact forall_mem_append.2 ⟨hopening, forall_mem_append.2
      ⟨isClean_joined hsep (hgoals gs rfl).2, hclosing⟩⟩

/-- Texts of plain rules are not expanded and take one line. -/
theorem isClean_rule (hr : r.IsPlain) (d : Dialect) : ∀ c ∈ (r.text d).toList, IsClean c := by
  obtain ⟨g, hg, hplain⟩ := hr.head
  have hgenerator (gs : List Goal) (h : r.generator = some gs) := (hr.generator gs h).2
  rw [Rule.toList_text hg]
  simp only [forall_mem_append]
  refine ⟨isClean_text hplain, by cases d <;> simp [neckText, IsClean],
    isClean_joined (by cases d <;> simp [bodySeparator, IsClean]) hr.body, ?_,
    by cases d <;> simp [close, IsClean]⟩
  cases d
  · refine isClean_goalsText (by simp [IsClean]) ?_ hr.features
    rw [String.toList_append]
    exact forall_mem_append.2
      ⟨isClean_goalsText (by simp [IsClean]) (by simp) hgenerator, by simp [IsClean]⟩
  · exact isClean_goalsText (by simp [IsClean])
      (isClean_goalsText (by simp [IsClean]) (by simp) hgenerator) hr.features

/-- A plain rule is parsed from its text in either dialect. -/
theorem parseRule?_text {r : Rule} (hr : r.IsPlain) :
    (∀ d, parseRule? d (r.text d) = some r) ∧
      parseRule? .clause (r.text .clause) = parseRule? .operator (r.text .operator) := by
  have hread (d : Dialect) : parseRule? d (r.text d) = some r := by
    have hclose : Over d (close d ++ []) ∧ NoAtom (close d ++ []) := by
      cases d
      · have hdot : Writes "." "." := by decide
        exact ⟨hdot.over (c := '.') rfl (by decide) [], fun c hc => Option.some.inj hc ▸ by decide⟩
      · exact ⟨⟨⟨fun c hc => (by cases hc), by simp [close, next, skip]⟩, fun c hc => (by cases hc)⟩,
          fun c hc => (by cases hc)⟩
    have htab : '\t' ∉ (r.text d).toList := fun h => (isClean_rule hr d _ h).1 rfl
    obtain ⟨left, hleft, -⟩ := rule_written hr hclose.1 (fun _ => hclose.2)
      (congrArg skip (append_nil (r.text d).toList).symm)
    rw [parseRule?, prepare, expandTabs_of_notMem htab, hleft]
    rfl
  exact ⟨hread, (hread .clause).trans (hread .operator).symm⟩

def lines (rs : List Rule) : List Char := rs.flatMap fun r => (r.text .operator).toList ++ ['\n']

theorem lines_cons (r : Rule) (rs : List Rule) :
    lines (r :: rs) = (r.text .operator).toList ++ '\n' :: lines rs := by
  rw [lines, flatMap_cons, append_assoc]
  rfl

theorem notMem_lines (hrs : ∀ r ∈ rs, r.IsPlain) : '\t' ∉ lines rs := by
  intro h
  obtain ⟨r, hr, hc⟩ := mem_flatMap.1 h
  rcases mem_append.1 hc with hc | hc
  · exact (isClean_rule (hrs r hr) .operator _ hc).1 rfl
  · exact absurd hc (by decide)

/-- The text of a rule starts with the name of its head. -/
theorem exists_text_eq_cons (hr : r.IsPlain) :
    ∃ c p, (r.text .operator).toList = c :: p ∧ isAtomChar c = true := by
  obtain ⟨g, hg, hplain⟩ := hr.head
  obtain ⟨c, p, hp⟩ := exists_cons_of_ne_nil hplain.functor.1
  have hc : isAtomChar c = true := hplain.functor.2 c (by rw [hp]; simp)
  have htext : ∃ q, g.text.toList = c :: q := by
    unfold Goal.text
    split
    · exact ⟨p, hp⟩
    · simp only [String.toList_append, hp]
      exact ⟨_, rfl⟩
  obtain ⟨q, hq⟩ := htext
  rw [Rule.toList_text hg, hq]
  exact ⟨c, _, rfl, hc⟩

theorem over_lines (hrs : ∀ r ∈ rs, r.IsPlain) : Over .operator ('\n' :: lines rs) := by
  have hnext : ∀ c ∈ next ('\n' :: lines rs), isAtomChar c = true := by
    intro c hc
    rw [next_congr (skip_space rfl _)] at hc
    cases rs with
    | nil => cases hc
    | cons r rs =>
      obtain ⟨d, p, htext, hd⟩ := exists_text_eq_cons (hrs r mem_cons_self)
      rw [lines_cons, htext, cons_append, next_cons (isSpace_of_isAtomChar hd)] at hc
      exact Option.some.inj hc ▸ hd
  refine ⟨⟨stops_of_isSpace rfl _, fun h => ?_⟩, fun c hc hmem => ?_⟩
  · exact absurd (hnext _ h) (by decide)
  · have hc := hnext c hc
    simp only [marks, mem_cons, not_mem_nil, or_false] at hmem
    rcases hmem with rfl | rfl | rfl <;> revert hc <;> decide

end Grammar

namespace Grammar

theorem rule_congr {cs' : List Char} (h : skip cs = skip cs') (d : Dialect) :
    rule d cs = rule d cs' := by
  simp [rule, goal_congr h]

/-- A rule at the start is found, and the search goes on with the rest. -/
theorem scan_of_reads (h : Reads (rule .operator) cs r rest)
    (hlength : rest.length < (skip cs).length) (pos : ℕ) :
    ∃ left stop, scan .operator pos cs =
        ⟨r, pos + (cs.takeWhile isSpace).length, stop⟩ :: scan .operator stop left ∧
      (left = rest ∨ left = skip rest) ∧ stop + left.length = pos + cs.length := by
  obtain ⟨left, hleft, hor⟩ := h
  have hle := length_of_left hor
  have hcs := length_takeWhile_add_skip cs
  rw [rule_congr (skip_skip cs).symm] at hleft
  refine ⟨left, pos + (cs.takeWhile isSpace).length + ((skip cs).length - left.length), ?_, hor, by
    omega⟩
  rw [scan]
  split
  · next hnil => rw [hnil] at hlength; simp at hlength
  · next c tail hskip =>
    rw [hskip] at hleft hlength hcs ⊢
    rw [hleft]
    simp only [show left.length < (c :: tail).length by omega, dite_true]

theorem length_lt_skip_text (hr : r.IsPlain)
    (hcs : skip cs = skip ((r.text .operator).toList ++ rest)) :
    rest.length < (skip cs).length := by
  obtain ⟨c, p, htext, hc⟩ := exists_text_eq_cons hr
  rw [hcs, htext, cons_append, skip_cons (isSpace_of_isAtomChar hc)]
  simp only [length_cons, length_append]
  omega

/-- The first of written rules is found, if it does not go on with the next. -/
theorem scan_lines_cons (hr : r.IsPlain) (hrs : ∀ r ∈ rs, r.IsPlain) (hbare : r.IsBare → rs = [])
    (hcs : skip cs = skip (lines (r :: rs))) (pos : ℕ) :
    ∃ left stop, scan .operator pos cs =
        ⟨r, pos + (cs.takeWhile isSpace).length, stop⟩ :: scan .operator stop left ∧
      skip left = skip (lines rs) ∧ left.length ≤ (lines rs).length + 1 ∧
        stop + left.length = pos + cs.length := by
  rw [lines_cons] at hcs
  have hreads : Reads (rule .operator) cs r ('\n' :: lines rs) := by
    refine rule_written hr (over_lines hrs) (fun h => ?_) hcs
    rw [hbare h]
    intro c hc
    cases hc
  obtain ⟨left, stop, hscan, hor, hstop⟩ :=
    scan_of_reads hreads (length_lt_skip_text hr hcs) pos
  exact ⟨left, stop, hscan, (skip_of_left hor).trans (skip_space rfl _), length_of_left hor, hstop⟩

/-- All written rules are found if a rule without goals is the last one. -/
theorem scan_lines (hrs : ∀ r ∈ rs, r.IsPlain)
    (hbare : ∀ before r after, rs = before ++ r :: after → r.IsBare → after = [])
    (hcs : skip cs = skip (lines rs)) (pos : ℕ) :
    (scan .operator pos cs).map Found.rule = rs ∧
      (∀ f ∈ (scan .operator pos cs).head?, f.start = pos + (cs.takeWhile isSpace).length) ∧
      ∀ f ∈ (scan .operator pos cs).getLast?, pos + cs.length ≤ f.stop + 1 := by
  induction rs generalizing cs pos with
  | nil =>
    have hnil : scan .operator pos cs = [] := by
      rw [scan]
      split
      · rfl
      · next heq => rw [hcs] at heq; cases heq
    rw [hnil]
    exact ⟨rfl, by simp, by simp⟩
  | cons r rs ih =>
    obtain ⟨hr, hothers⟩ := forall_mem_cons.1 hrs
    obtain ⟨left, stop, hscan, hskip, hleft, hstop⟩ :=
      scan_lines_cons hr hothers (hbare [] r rs rfl) hcs pos
    obtain ⟨hmap, -, hlast⟩ := ih hothers
      (fun before r' after heq => hbare (r :: before) r' after (by rw [heq]; rfl)) hskip stop
    rw [hscan, map_cons, hmap]
    refine ⟨rfl, fun f hf => Option.some.inj hf ▸ rfl, fun f hf => ?_⟩
    cases hfs : scan .operator stop left with
    | nil =>
      rw [hfs] at hf hmap
      obtain rfl := Option.some.inj hf
      obtain rfl : rs = [] := hmap.symm
      simp only [lines, flatMap_nil, length_nil] at hleft
      change pos + cs.length ≤ stop + 1
      omega
    | cons f' fs =>
      rw [hfs] at hf
      have := hlast f (by rw [hfs]; exact hf)
      omega

/-- If such a rule is not the last one, a rule with a goal is found there. -/
theorem scan_lines_bare {r' : Rule} (hplain : ∀ s ∈ before ++ r :: r' :: after, s.IsPlain)
    (hbefore : ∀ s ∈ before, ¬ s.IsBare) (hr : r.IsBare)
    (hcs : skip cs = skip (lines (before ++ r :: r' :: after))) (pos : ℕ) :
    ∃ g more, (scan .operator pos cs).map Found.rule = before ++ { r with body := [g] } :: more := by
  induction before generalizing cs pos with
  | nil =>
    obtain ⟨hfirst, hsecond, -⟩ : r.IsPlain ∧ r'.IsPlain ∧ ∀ s ∈ after, s.IsPlain := by
      simpa using hplain
    obtain ⟨g, hg, hgplain⟩ := hsecond.head
    obtain ⟨u, hnext⟩ : ∃ u, lines (r' :: after) = g.text.toList ++ (" <= ".toList ++ u) := by
      rw [lines_cons, Rule.toList_text hg, append_assoc]
      exact ⟨_, rfl⟩
    rw [nil_append, lines_cons, hnext] at hcs
    have hline : ∀ c ∈ ['\n'], isSpace c = true := forall_mem_singleton.2 rfl
    have hreads : Reads (rule .operator) cs { r with body := [g] } (" <= ".toList ++ u) :=
      rule_swallows hfirst hr hgplain hline hcs
    have hlength := length_lt_skip_text hfirst hcs
    simp only [length_append, length_cons] at hlength
    obtain ⟨left, stop, hscan, -, -⟩ :=
      scan_of_reads hreads (by simp only [length_append]; omega) pos
    exact ⟨g, (scan .operator stop left).map Found.rule, by rw [hscan]; rfl⟩
  | cons s before ih =>
    obtain ⟨hs, hothers⟩ := forall_mem_cons.1 hplain
    obtain ⟨hbare, hbefore⟩ := forall_mem_cons.1 hbefore
    obtain ⟨left, stop, hscan, hskip, -, -⟩ :=
      scan_lines_cons hs hothers (fun h => absurd h hbare) hcs pos
    obtain ⟨g, more, hmore⟩ := ih hothers hbefore hskip stop
    exact ⟨g, more, by rw [hscan, map_cons, hmore]; rfl⟩

end Grammar

/-- Rules are looked for in the text of a saved theory as it is. -/
theorem Theory.uncommented_serialize (ht : ∀ r ∈ t.rules, r.IsPlain) :
    uncommented (Text.fileLines t.serialize) = .ok (lines t.rules) ∧
      Text.expandTabs (lines t.rules) = lines t.rules := by
  have hfile : Text.fileLines t.serialize = t.rules.map fun r => r.text .operator ++ "\n" := by
    have hclean : ∀ x ∈ t.rules.map (·.text .operator), '\n' ∉ x.toList ∧ '\r' ∉ x.toList := by
      refine forall_mem_map.2 fun r hr => ⟨fun h => ?_, fun h => ?_⟩
      · exact (isClean_rule (ht r hr) .operator _ h).2.1 rfl
      · exact (isClean_rule (ht r hr) .operator _ h).2.2 rfl
    have htexts := fileLines_of_notMem hclean
    rwa [unlines, map_map] at htexts
  refine ⟨?_, expandTabs_of_notMem (notMem_lines ht)⟩
  rw [hfile]
  refine then_ok.2 ⟨_, except_mapM_eq (g := String.toList) fun line hline => ?_, ?_⟩
  · -- a line starts with the name of a head, and not with the sign of a comment
    obtain ⟨r, hr, rfl⟩ := mem_map.1 hline
    obtain ⟨c, p, htext, hc⟩ := exists_text_eq_cons (ht r hr)
    rw [String.toList_append, htext]
    split
    · next h => cases h
    · next h => exact absurd ((List.cons.inj h).1 ▸ hc) (by decide)
    · rfl
  · simp [lines, flatMap_def, Function.comp_def]

theorem stripChars_drop_lines {n : ℕ} (h : (lines rs).length ≤ n + 1) :
    Text.stripChars ((lines rs).drop n) = [] := by
  rcases eq_nil_or_concat rs with rfl | ⟨rs, r, rfl⟩
  · simp [lines, Text.stripChars]
  · set cs := lines rs ++ (r.text .operator).toList with hcs
    have hlines : lines (rs.concat r) = cs ++ ['\n'] := by simp [lines, hcs]
    rw [hlines, length_append, length_singleton] at h
    rw [hlines, drop_append, drop_eq_nil_of_le (by omega)]
    rcases n - cs.length with _ | k
    · rfl
    · simp [Text.stripChars]

theorem takeWhile_lines (hrs : ∀ r ∈ rs, r.IsPlain) : (lines rs).takeWhile isSpace = [] := by
  cases rs with
  | nil => rfl
  | cons r rs =>
    obtain ⟨c, p, htext, hc⟩ := exists_text_eq_cons (hrs r mem_cons_self)
    rw [lines_cons, htext, cons_append, takeWhile_cons, isSpace_of_isAtomChar hc]
    rfl

/-- A saved theory whose bare rules stand last is read back whole. -/
theorem Theory.extend_serialize (h : t.IsMadeOf rs) (ht : ∀ r ∈ t.rules, r.IsPlain)
    (hbare : ∀ before r after, t.rules = before ++ r :: after → r.IsBare → after = []) :
    Theory.extend .operator (Text.fileLines t.serialize) { dialect := .operator } =
      .ok ({ dialect := .operator, groups := t.groups }, "") := by
  obtain ⟨hlines, htabs⟩ := uncommented_serialize ht
  obtain ⟨hmap, hfirst, hlast⟩ := scan_lines ht hbare rfl 0
  have hfold : (scan .operator 0 (lines t.rules)).foldlM (fun t f => t.add f.rule)
      ({ dialect := .operator } : Theory) = .ok { dialect := .operator, groups := t.groups } := by
    rw [← foldlM_map, hmap]
    exact h.rules .operator
  rw [extend, hlines]
  simp only [bind, Except.bind, htabs, hfold]
  cases hfound : scan .operator 0 (lines t.rules) with
  | nil =>
    rw [hfound] at hmap hfold
    rw [← Except.ok.inj hfold, ← hmap]
    rfl
  | cons first fs =>
    have hstart : first.start = 0 := by
      rw [hfirst first (by rw [hfound]; rfl), takeWhile_lines ht]
      rfl
    obtain ⟨last, hgetLast⟩ : ∃ last, (first :: fs).getLast? = some last :=
      ⟨_, getLast?_eq_some_getLast (cons_ne_nil _ _)⟩
    have hstop := hlast last (by rw [hfound, hgetLast]; rfl)
    have hrest : Text.stripChars ((lines t.rules).drop ((first :: fs).getLastD first).stop) = [] := by
      refine stripChars_drop_lines ?_
      rw [getLastD_eq_getLast?, hgetLast, Option.getD_some]
      omega
    simp only [hstart, hrest]
    rfl

/-- A bare rule that is not the last one, after rules that are not bare. -/
theorem exists_first_bare (before : List Rule) (hr : r.IsBare) (hafter : after ≠ []) :
    ∃ before' r1 r2 after', before ++ r :: after = before' ++ r1 :: r2 :: after' ∧
      r1.IsBare ∧ ∀ s ∈ before', ¬ s.IsBare := by
  induction before with
  | nil =>
    obtain ⟨r2, after', rfl⟩ := exists_cons_of_ne_nil hafter
    exact ⟨[], r, r2, after', rfl, hr, by simp⟩
  | cons s before ih =>
    by_cases hs : s.IsBare
    · obtain ⟨r2, after', hrest⟩ := exists_cons_of_ne_nil
        (append_ne_nil_of_right_ne_nil before (cons_ne_nil r after))
      exact ⟨[], s, r2, after', by rw [cons_append, hrest]; rfl, hs, by simp⟩
    · obtain ⟨before', r1, r2, after', hrest, hr1, hbefore⟩ := ih
      exact ⟨s :: before', r1, r2, after', by rw [cons_append, hrest]; rfl, hr1,
        forall_mem_cons.2 ⟨hs, hbefore⟩⟩

/-- If a bare rule is not the last one saved, other groups are read. -/
theorem Theory.groups_ne_of_extend (h : t.IsMadeOf rs) (ht : ∀ r ∈ t.rules, r.IsPlain)
    (hrules : t.rules = before ++ r :: after) (hr : r.IsBare) (hafter : after ≠ [])
    {u : Theory × String}
    (hu : Theory.extend .operator (Text.fileLines t.serialize) { dialect := .operator } = .ok u) :
    u.1.groups ≠ t.groups := by
  obtain ⟨before, r, r2, after, hfirst, hr, hbefore⟩ := exists_first_bare before hr hafter
  rw [hfirst] at hrules
  obtain ⟨hlines, htabs⟩ := uncommented_serialize ht
  obtain ⟨g, more, hfound⟩ := scan_lines_bare (hrules ▸ ht) hbefore hr (by rw [← hrules]) 0
  obtain ⟨u', hextended, hcases⟩ := extend_of_scan hlines .operator { dialect := .operator }
  rw [htabs, ← foldlM_map, hfound] at hextended
  obtain rfl : u' = u.1 := by
    rcases hcases with ⟨-, e, he⟩ | ⟨-, unread, hok, -⟩
    · cases he.symm.trans hu
    · exact congrArg Prod.fst (ok_unique hok hu)
  obtain ⟨head, hhead, -⟩ := (ht r (by rw [hrules]; simp)).head
  have hread := rulesFor?_addAll hextended head.key
  have hsaved := rulesFor?_addAll (h.rules .operator) head.key
  intro hgroups
  have hsame : (u.1.rulesFor? head.key).getD [] =
      (rulesFor? ⟨.operator, t.groups⟩ head.key).getD [] := by
    rw [rulesFor?, hgroups, rulesFor?]
  rw [hread, hsaved, hrules] at hsame
  have hfiled := append_cancel_left hsame
  have hhead' : ({ r with body := [g] } : Rule).head = some head := hhead
  rw [filedUnder_append_cons hhead, filedUnder_append_cons hhead'] at hfiled
  have hr' := (List.cons.inj (append_cancel_left hfiled)).1
  exact absurd (congrArg Rule.body hr') (by simp [hr.1])

/-- A theory of plain rules is read back from its saved text, group by group, exactly if every rule
without goals and features is its last one. -/
theorem Run.exists_readRules_serialize_iff {α σ : Type} {t : Theory} {rs : List Rule}
    (h : t.IsMadeOf rs) (ht : ∀ r ∈ t.rules, r.IsPlain) (label : String) (v : World α × σ) :
    (∃ u v', readRules .operator ⟨label, Text.fileLines t.serialize⟩ { dialect := .operator } v =
        .ok u v' ∧ u.groups = t.groups) ↔
      ∀ before r after, t.rules = before ++ r :: after → r.IsBare → after = [] := by
  constructor
  · rintro ⟨u, v', hread, hgroups⟩ before r after hrules hr
    by_contra hafter
    obtain ⟨⟨u', unread⟩, _, hlift, hread⟩ := bind_ok.1 hread
    obtain ⟨hextend, rfl⟩ := lift_ok.1 hlift
    have hu : u' = u := by
      dsimp only at hread
      split at hread
      · obtain ⟨_, _, -, hread⟩ := bind_ok.1 hread
        exact (pure_ok.1 hread).1
      · exact (pure_ok.1 hread).1
    exact Theory.groups_ne_of_extend h ht hrules hr hafter hextend (hu ▸ hgroups)
  · intro hbare
    refine ⟨{ dialect := .operator, groups := t.groups }, v, ?_, rfl⟩
    exact bind_ok.2 ⟨_, v, lift_ok.2 ⟨Theory.extend_serialize h ht hbare, rfl⟩, rfl⟩

namespace Sample

/-- A rule with features, and what generates them. -/
def weighedRule : Rule where
  head := some ⟨"p", ["X", "Y"]⟩
  body := [⟨"q", ["X", "Z"]⟩, ⟨"q", ["Z", "Y"]⟩]
  features := some [⟨"f", ["W"]⟩]
  generator := some [⟨"r", ["X", "W"]⟩]

def bareRule : Rule := { head := some ⟨"always", []⟩, body := [] }

theorem isPlain_weighedRule : weighedRule.IsPlain where
  head := ⟨_, rfl, by constructor <;> simp [Grammar.IsPlain, isAtomChar]⟩
  body g hg := by
    rcases mem_pair.1 hg with rfl | rfl <;> constructor <;>
      simp [Grammar.IsPlain, isAtomChar]
  features gs hgs := by
    obtain rfl := Option.some.inj hgs
    refine ⟨cons_ne_nil _ _, forall_mem_singleton.2 ?_⟩
    constructor <;> simp [Grammar.IsPlain, isAtomChar]
  generator gs hgs := by
    obtain rfl := Option.some.inj hgs
    refine ⟨rfl, cons_ne_nil _ _, forall_mem_singleton.2 ?_⟩
    constructor <;> simp [Grammar.IsPlain, isAtomChar]

theorem isPlain_bareRule : bareRule.IsPlain where
  head := ⟨_, rfl, by constructor <;> simp [Grammar.IsPlain, isAtomChar]⟩
  body := by simp [bareRule]
  features gs hgs := by cases hgs
  generator gs hgs := by cases hgs

/-- The theory of the two rules, with the rule without goals at the end. -/
def bareLast : Theory := ⟨.clause, [("p/2", [weighedRule]), ("always/0", [bareRule])]⟩

/-- The theory of the two rules, with the rule without goals at the start. -/
def bareFirst : Theory := ⟨.clause, [("always/0", [bareRule]), ("p/2", [weighedRule])]⟩

end Sample

open Sample in
/-- A rule with all its parts, in both dialects. -/
theorem parseRule?_text_weighedRule :
    parseRule? .clause "p(X,Y) :- q(X,Z), q(Z,Y) \x7bf(W) : r(X,W)\x7d." = some weighedRule ∧
      parseRule? .operator "p(X,Y) <= q(X,Z) & q(Z,Y) // f(W) | r(X,W)" = some weighedRule := by
  have hclause : "p(X,Y) :- q(X,Z), q(Z,Y) \x7bf(W) : r(X,W)\x7d." = weighedRule.text .clause := by
    decide +kernel
  have hoperator : "p(X,Y) <= q(X,Z) & q(Z,Y) // f(W) | r(X,W)" = weighedRule.text .operator := by
    decide +kernel
  rw [hclause, hoperator]
  exact ⟨(parseRule?_text isPlain_weighedRule).1 .clause,
    (parseRule?_text isPlain_weighedRule).1 .operator⟩

open Sample in
/-- A rule without goals is read back at the end, not at the start. -/
theorem exists_readRules_serialize_bareRule :
    (∃ u v', readRules .operator ⟨"rules", Text.fileLines bareLast.serialize⟩
      { dialect := .operator } (({ settings := {} } : World ℚ), ()) = .ok u v' ∧
        u.groups = bareLast.groups) ∧
    ¬ ∃ u v', readRules .operator ⟨"rules", Text.fileLines bareFirst.serialize⟩
      { dialect := .operator } (({ settings := {} } : World ℚ), ()) = .ok u v' ∧
        u.groups = bareFirst.groups := by
  have hlast : bareLast.IsMadeOf [weighedRule, bareRule] := ⟨.clause, by with_unfolding_all rfl⟩
  have hfirst : bareFirst.IsMadeOf [bareRule, weighedRule] := ⟨.clause, by with_unfolding_all rfl⟩
  have hplain : ∀ r, r = weighedRule ∨ r = bareRule → r.IsPlain := by
    rintro r (rfl | rfl)
    · exact isPlain_weighedRule
    · exact isPlain_bareRule
  constructor
  · refine (exists_readRules_serialize_iff hlast (fun r hr => hplain r (mem_pair.1 hr)) _ _).2 ?_
    intro before r after hrules hr
    match before, hrules with
    | [], hrules =>
      obtain ⟨rfl, -⟩ := List.cons.inj hrules
      cases hr.1
    | [_], hrules => exact (List.cons.inj (List.cons.inj hrules).2).2.symm
    | _ :: _ :: _, hrules =>
      have := congrArg List.length hrules
      simp [bareLast, Theory.rules] at this
  · rw [exists_readRules_serialize_iff hfirst fun r hr => hplain r (mem_pair.1 hr).symm]
    intro h
    exact absurd (h [] bareRule [weighedRule] rfl ⟨rfl, rfl⟩) (cons_ne_nil _ _)

end BeliefLogic
