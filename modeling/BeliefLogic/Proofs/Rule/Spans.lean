import BeliefLogic.Proofs.Outcome
import BeliefLogic.Proofs.Rule.Written

/-!
# Where rules stand in a text

Every rule stands between two positions of the text, and no two overlap. Reading passes over what
stands between them.
-/

namespace BeliefLogic

open Outcome Run List Text

variable {β γ : Type} {d : Dialect} {cs rest : List Char} {pos : ℕ}
variable {item : Grammar.Reader β} {n : ℕ} {lines : List String}

namespace Grammar

/-- A reader leaves the end of what it was given. -/
def Shrinks (read : Reader β) : Prop := ∀ ⦃cs x rest⦄, read cs = some (x, rest) → rest <:+ cs

theorem skip_suffix (cs : List Char) : skip cs <:+ cs := dropWhile_suffix isSpace

theorem shrinks_pure (x : β) : Shrinks fun cs => some (x, cs) := by
  intro cs y rest h
  obtain ⟨-, rfl⟩ := Prod.mk.inj (Option.some.inj h)
  exact suffix_rfl

theorem shrinks_bind {read : Reader β} {k : β × List Char → Option (γ × List Char)}
    (h : Shrinks read) (hk : ∀ x, Shrinks fun rest => k (x, rest)) :
    Shrinks fun cs => (read cs).bind k := by
  intro cs y rest hcs
  obtain ⟨⟨x, left⟩, hx, hy⟩ := Option.bind_eq_some_iff.1 hcs
  exact (hk x hy).trans (h hx)

theorem shrinks_token (t : String) : Shrinks (token t) := by
  intro cs x rest h
  obtain ⟨left, hleft, heq⟩ := Option.map_eq_some_iff.1 h
  obtain ⟨-, rfl⟩ := Prod.mk.inj heq
  exact .trans ⟨_, (eq_append_of_dropLeading? hleft).symm⟩ (skip_suffix cs)

theorem shrinks_quotedTail : Shrinks quotedTail := by
  intro cs w rest h
  fun_induction quotedTail cs generalizing w with
  | case1 | case3 | case5 => cases h
  | case2 cs =>
    obtain ⟨-, rfl⟩ := Prod.mk.inj (Option.some.inj h)
    exact suffix_cons _ _
  | case4 c cs hc ih =>
    obtain ⟨p, hp, heq⟩ := Option.map_eq_some_iff.1 h
    obtain ⟨-, rfl⟩ := Prod.mk.inj heq
    exact (ih hp).trans ⟨['\\', c], rfl⟩
  | case6 c cs _ _ hc ih =>
    obtain ⟨p, hp, heq⟩ := Option.map_eq_some_iff.1 h
    obtain ⟨-, rfl⟩ := Prod.mk.inj heq
    exact (ih hp).trans (suffix_cons _ _)

theorem shrinks_atom : Shrinks atom := by
  intro cs s rest h
  rcases (Option.orElse_eq_some _ _ _).1 h with h | ⟨-, h⟩
  · simp only [plainAtom] at h
    split at h
    · cases h
    · obtain ⟨-, rfl⟩ := Prod.mk.inj (Option.some.inj h)
      exact (dropWhile_suffix _).trans (skip_suffix cs)
  · rw [quotedAtom] at h
    split at h
    · next u hu =>
      obtain ⟨p, hp, heq⟩ := Option.map_eq_some_iff.1 h
      obtain ⟨-, rfl⟩ := Prod.mk.inj heq
      exact (shrinks_quotedTail hp).trans ((suffix_cons _ u).trans (hu ▸ skip_suffix cs))
    · cases h

theorem moreItems_suffix (hitem : Shrinks item) (sep : String) (cs : List Char) :
    (moreItems sep item cs).2 <:+ cs := by
  have hnext : Shrinks fun cs => (token sep cs).bind fun p => item p.2 :=
    shrinks_bind (shrinks_token sep) fun _ => hitem
  fun_induction moreItems sep item cs with
  | case1 cs h => exact suffix_rfl
  | case2 cs x rest h hlt xs left heq ih =>
    rw [heq] at ih
    exact ih.trans (hnext h)
  | case3 cs x rest h hlt => exact hnext h

theorem shrinks_itemList (hitem : Shrinks item) (sep : String) :
    Shrinks (itemList sep item) := by
  intro cs xs rest h
  obtain ⟨⟨x, left⟩, hx, heq⟩ := Option.map_eq_some_iff.1 h
  have hmore := (moreItems_suffix hitem sep left).trans (hitem hx)
  dsimp only at heq
  split at heq
  · next left' hleft =>
    obtain ⟨-, rfl⟩ := Prod.mk.inj heq
    rw [hleft] at hmore
    exact (skip_suffix left').trans hmore
  · next xs' left' _ hleft =>
    obtain ⟨-, rfl⟩ := Prod.mk.inj heq
    rwa [hleft] at hmore

theorem shrinks_arguments : Shrinks arguments :=
  shrinks_bind (shrinks_token _) fun _ => shrinks_bind (shrinks_itemList shrinks_atom _) fun _ =>
    shrinks_bind (shrinks_token _) fun _ => shrinks_pure _

theorem shrinks_goal : Shrinks goal := by
  refine shrinks_bind shrinks_atom fun f cs g rest h => ?_
  dsimp only at h
  split at h
  · next hargs =>
    obtain ⟨-, rfl⟩ := Prod.mk.inj (Option.some.inj h)
    exact shrinks_arguments hargs
  · obtain ⟨-, rfl⟩ := Prod.mk.inj (Option.some.inj h)
    exact skip_suffix cs

theorem shrinks_goals (d : Dialect) : Shrinks (goals d) := shrinks_itemList shrinks_goal _

theorem optionalGoals_suffix (d : Dialect) (cs : List Char) : (optionalGoals d cs).2 <:+ cs := by
  rw [optionalGoals]
  cases h : goals d cs with
  | none => exact skip_suffix cs
  | some p => exact shrinks_goals d h

theorem goalsAfter_suffix (t : String) (d : Dialect) (cs : List Char) :
    (goalsAfter t d cs).2 <:+ cs := by
  rw [goalsAfter]
  split
  · next h => exact shrinks_bind (shrinks_token t) (fun _ => shrinks_goals d) h
  · exact skip_suffix cs

theorem shrinks_featureBlock (d : Dialect) : Shrinks (featureBlock d) := by
  cases d
  · refine shrinks_bind (shrinks_token _) fun _ => shrinks_bind (shrinks_goals _) fun _ cs _ _ h => ?_
    obtain ⟨p, hclose, heq⟩ := Option.bind_eq_some_iff.1 h
    obtain ⟨-, rfl⟩ := Prod.mk.inj (Option.some.inj heq)
    exact (shrinks_token _ hclose).trans (goalsAfter_suffix _ _ cs)
  · refine shrinks_bind (shrinks_token _) fun _ => shrinks_bind (shrinks_goals _) fun _ cs _ _ h => ?_
    exact (shrinks_pure _ h).trans (goalsAfter_suffix _ _ cs)

/-- A rule that is read has a head, and leaves the end of the text. -/
theorem rule_ok {r : Rule} (h : rule d cs = some (r, rest)) : r.head.isSome ∧ rest <:+ cs := by
  obtain ⟨⟨g, left⟩, hhead, h⟩ := Option.bind_eq_some_iff.1 h
  obtain ⟨⟨_, left'⟩, hneck, h⟩ := Option.bind_eq_some_iff.1 h
  have hbody := (optionalGoals_suffix d left').trans
    ((shrinks_token _ hneck).trans (shrinks_goal hhead))
  rcases hblock : featureBlock d (optionalGoals d left').2 with _ | ⟨b, tail⟩
  on_goal 1 => have htail := (skip_suffix _).trans hbody
  on_goal 2 => have htail := (shrinks_featureBlock d hblock).trans hbody
  all_goals
    simp only [hblock] at h
    cases d
    · obtain ⟨p, hstop, heq⟩ := Option.bind_eq_some_iff.1 h
      obtain ⟨rfl, rfl⟩ := Prod.mk.inj (Option.some.inj heq)
      exact ⟨rfl, (shrinks_token _ hstop).trans htail⟩
    · obtain ⟨rfl, rfl⟩ := Prod.mk.inj (Option.some.inj h)
      exact ⟨rfl, htail⟩

/-- A rule is read where it was found, and leaves the text after it. -/
structure Found.Stands (d : Dialect) (pos : ℕ) (cs : List Char) (f : Found) : Prop where
  pos_le : pos ≤ f.start
  lt : f.start < f.stop
  stop_le : f.stop ≤ pos + cs.length
  reads : Grammar.rule d (cs.drop (f.start - pos)) = some (f.rule, cs.drop (f.stop - pos))

theorem Found.Stands.of_suffix {f : Found} (hcs : rest <:+ cs)
    (hpos : n + rest.length = pos + cs.length) (h : f.Stands d n rest) : f.Stands d pos cs := by
  have hlength := hcs.length_le
  have hdrop (k : ℕ) (hk : n ≤ k) : rest.drop (k - n) = cs.drop (k - pos) := by
    rw [suffix_iff_eq_drop.1 hcs, drop_drop]
    congr 1
    omega
  have hlt := h.lt
  have hle := h.pos_le
  refine ⟨by omega, hlt, hpos ▸ h.stop_le, ?_⟩
  rw [← hdrop _ hle, ← hdrop _ (by omega)]
  exact h.reads

theorem length_takeWhile_add_skip (cs : List Char) :
    (cs.takeWhile isSpace).length + (skip cs).length = cs.length := by
  rw [← length_append, skip, takeWhile_append_dropWhile]

/-- All rules stand where they were found, one after the other. -/
theorem scan_stands (d : Dialect) (pos : ℕ) (cs : List Char) :
    (∀ f ∈ scan d pos cs, f.Stands d pos cs) ∧
      (scan d pos cs).Pairwise fun f g => f.stop ≤ g.start := by
  fun_induction scan d pos cs with
  | case1 => simp
  | case2 pos cs blanks c tail hs hnone ih | case4 pos cs blanks c tail hs r rest hrule hlt ih =>
    have hlength := length_takeWhile_add_skip cs
    rw [hs, length_cons] at hlength
    refine ⟨fun f hf => (ih.1 f hf).of_suffix ?_ (by omega), ih.2⟩
    exact (suffix_cons c tail).trans (hs ▸ skip_suffix cs)
  | case3 pos cs blanks c tail hs r rest hrule hlt stop ih =>
    have hlength := length_takeWhile_add_skip cs
    have hskip := skip_suffix cs
    rw [hs] at hlength hskip
    have hrest := (rule_ok hrule).2
    have hstands : Found.Stands d (pos + blanks) (c :: tail) ⟨r, pos + blanks, stop⟩ := by
      refine ⟨le_rfl, by dsimp only; omega, by dsimp only; omega, ?_⟩
      rw [Nat.sub_self, drop_zero, hrule, suffix_iff_eq_drop.1 hrest]
      simp [stop]
    exact ⟨forall_mem_cons.2 ⟨hstands.of_suffix hskip (by omega), fun f hf =>
        (ih.1 f hf).of_suffix (hrest.trans hskip) (by omega)⟩,
      pairwise_cons.2 ⟨fun f hf => (ih.1 f hf).pos_le, ih.2⟩⟩

end Grammar

namespace Text

theorem stripChars_eq_nil_iff : stripChars cs = [] ↔ ∀ c ∈ cs, isBlank c = true := by
  rw [stripChars, reverse_eq_nil_iff, dropWhile_eq_nil_iff]
  simp only [mem_reverse]
  constructor
  · intro h c hc
    rw [← takeWhile_append_dropWhile (l := cs), mem_append] at hc
    exact hc.elim mem_takeWhile_imp (h c)
  · exact fun h c hc => h c ((dropWhile_suffix _).subset hc)

theorem stripChars_take_iff : stripChars (cs.take n) = [] ↔
    ∀ i c, cs[i]? = some c → isBlank c = false → n ≤ i := by
  simp only [stripChars_eq_nil_iff, mem_iff_getElem?, getElem?_take]
  grind

/-- All text stands before a position. -/
theorem stripChars_drop_iff : stripChars (cs.drop n) = [] ↔
    ∀ i c, cs[i]? = some c → isBlank c = false → i < n := by
  simp only [stripChars_eq_nil_iff, mem_iff_getElem?, getElem?_drop]
  constructor
  · intro h i c hc hblank
    by_contra hi
    have := h c ⟨i - n, by rwa [Nat.add_sub_cancel' (not_lt.1 hi)]⟩
    simp [this] at hblank
  · rintro h c ⟨i, hi⟩
    by_contra hblank
    have := h _ c hi (by simpa using hblank)
    omega

end Text

namespace Grammar

variable {fs : List Found} {first last : Found}

/-- Some character that is not blank stands before all rules found. -/
def Preceded (fs : List Found) (cs : List Char) : Prop :=
  fs ≠ [] ∧ ∃ i c, cs[i]? = some c ∧ Text.isBlank c = false ∧ ∀ f ∈ fs, i < f.start

/-- Every character but blanks stands in a rule found, or between two of them. -/
def Covered (fs : List Found) (cs : List Char) : Prop :=
  ∀ i c, cs[i]? = some c → Text.isBlank c = false → ∃ f ∈ fs, ∃ g ∈ fs, f.start ≤ i ∧ i < g.stop

/-- The text around rules says whether text precedes them and they cover it. -/
theorem preceded_covered_iff (hlt : ∀ f ∈ fs, f.start < f.stop)
    (hfs : fs.Pairwise fun f g => f.stop ≤ g.start) (hfirst : fs.head? = some first)
    (hlast : fs.getLast? = some last) (cs : List Char) :
    (¬ Preceded fs cs ↔ Text.stripChars (cs.take first.start) = []) ∧
      (Covered fs cs ↔ ¬ Preceded fs cs ∧ Text.stripChars (cs.drop last.stop) = []) := by
  have hmem1 := mem_of_head? hfirst
  have hmem2 := mem_of_getLast? hlast
  have hfrom : ∀ f ∈ fs, first.start ≤ f.start := by
    obtain ⟨fs, rfl⟩ := head?_eq_some_iff.1 hfirst
    intro f hf
    rcases mem_cons.1 hf with rfl | hf
    · exact le_rfl
    · exact (hlt first hmem1).le.trans ((pairwise_cons.1 hfs).1 f hf)
  have hto : ∀ f ∈ fs, f.stop ≤ last.stop := by
    obtain ⟨fs, rfl⟩ := getLast?_eq_some_iff.1 hlast
    intro f hf
    rcases mem_append.1 hf with hf | hf
    · exact ((pairwise_append.1 hfs).2.2 f hf last (by simp)).trans (hlt last hmem2).le
    · rw [mem_singleton.1 hf]
  have hbefore : ¬ Preceded fs cs ↔ Text.stripChars (cs.take first.start) = [] := by
    rw [stripChars_take_iff]
    constructor
    · intro h i c hc hblank
      by_contra hi
      exact h ⟨ne_nil_of_mem hmem1, i, c, hc, hblank, fun f hf =>
        (not_le.1 hi).trans_le (hfrom f hf)⟩
    · rintro h ⟨-, i, c, hc, hblank, hall⟩
      exact absurd (h i c hc hblank) (not_le.2 (hall first hmem1))
  refine ⟨hbefore, ?_⟩
  rw [hbefore, stripChars_take_iff, stripChars_drop_iff]
  constructor
  · intro h
    refine ⟨fun i c hc hblank => ?_, fun i c hc hblank => ?_⟩ <;>
      obtain ⟨f, hf, g, hg, hle, hlt⟩ := h i c hc hblank
    · exact (hfrom f hf).trans hle
    · exact hlt.trans_le (hto g hg)
  · exact fun h i c hc hblank =>
      ⟨first, hmem1, last, hmem2, h.1 i c hc hblank, h.2 i c hc hblank⟩

end Grammar

open Grammar

theorem Theory.exists_foldlM_add {rs : List Rule} (h : ∀ r ∈ rs, r.head.isSome) (t : Theory) :
    ∃ u, rs.foldlM add t = .ok u := by
  induction rs generalizing t with
  | nil => exact ⟨t, rfl⟩
  | cons r rs ih =>
    obtain ⟨hr, hrs⟩ := forall_mem_cons.1 h
    obtain ⟨g, hg⟩ := Option.isSome_iff_exists.1 hr
    rw [foldlM_cons, add, hg]
    exact ih hrs _

/-- The rules that are found are added. Reading fails if text precedes them, or if a theory with
rules gets none. -/
theorem Theory.extend_of_scan (hcs : uncommented lines = .ok cs) (d : Dialect) (t : Theory) :
    let found := scan d 0 (Text.expandTabs cs)
    let fails := (found = [] ∧ t.size ≠ 0) ∨ Preceded found cs
    ∃ u, found.foldlM (fun t f => t.add f.rule) t = .ok u ∧
      (fails ∧ (∃ e, t.extend d lines = .error e) ∨
        ¬ fails ∧ ∃ unread, t.extend d lines = .ok (u, String.ofList unread) ∧
          (unread = [] ↔ (found = [] → cs = []) ∧ Covered found cs)) := by
  obtain ⟨hstands, hordered⟩ := scan_stands d 0 (Text.expandTabs cs)
  have hheads : ∀ r ∈ (scan d 0 (Text.expandTabs cs)).map Found.rule, r.head.isSome := by
    intro r hr
    obtain ⟨f, hf, rfl⟩ := mem_map.1 hr
    exact (rule_ok (hstands f hf).reads).1
  obtain ⟨u, hu⟩ := exists_foldlM_add hheads t
  rw [foldlM_map] at hu
  refine ⟨u, hu, ?_⟩
  rw [extend, hcs]
  simp only [bind, Except.bind, hu]
  cases hfound : scan d 0 (Text.expandTabs cs) with
  | nil =>
    rw [hfound] at hu
    obtain rfl := Except.ok.inj hu
    by_cases hsize : t.size = 0
    · refine .inr ⟨by simp [hsize, Preceded], cs, if_pos hsize, ?_⟩
      exact ⟨fun h => ⟨fun _ => h, by simp [h, Covered]⟩, fun h => h.1 rfl⟩
    · exact .inl ⟨.inl ⟨rfl, hsize⟩, _, if_neg hsize⟩
  | cons first fs =>
    rw [hfound] at hstands hordered
    obtain ⟨last, hlast⟩ : ∃ last, (first :: fs).getLast? = some last :=
      ⟨_, getLast?_eq_some_getLast (cons_ne_nil _ _)⟩
    obtain ⟨hbefore, hcovered⟩ :=
      preceded_covered_iff (fun f hf => (hstands f hf).lt) hordered rfl hlast cs
    by_cases h : Preceded (first :: fs) cs
    · exact .inl ⟨.inr h, .leadingText, by simp [mt hbefore.2 (not_not.2 h)]⟩
    · refine .inr ⟨by simp [h], Text.stripChars (cs.drop last.stop), ?_, ?_⟩
      · simp [hbefore.1 h, hlast]
      · rw [hcovered]
        simp [h]

/-- Text that is left over is reported, and nothing else changes. -/
theorem Run.readRules_of_ok {α σ : Type} {onto t : Theory} {unread : String}
    (h : onto.extend d lines = .ok (t, unread)) (label : String) (v : World α × σ) :
    ∃ v', readRules d ⟨label, lines⟩ onto v = .ok t v' ∧ (v' = v ↔ unread = "") := by
  by_cases hunread : unread = ""
  · subst hunread
    exact ⟨v, bind_ok.2 ⟨_, v, lift_ok.2 ⟨h, rfl⟩, rfl⟩, by simp⟩
  · have hempty : unread.isEmpty = false := by simpa using hunread
    refine ⟨({ v.1 with log := v.1.log.push ⟨.error, "unparsed text at end of " ++ label ++
      ": \"..." ++ unread ++ "\""⟩ }, v.2), bind_ok.2 ⟨_, v, lift_ok.2 ⟨h, rfl⟩, ?_⟩,
      iff_of_false (fun hv => ?_) hunread⟩
    · simp only [hempty]
      rfl
    · -- a report makes the log longer
      simpa using congrArg (fun v => v.1.log.size) hv

/-- Rules stand where they are found, in the text with its tabs expanded. They are read without a
report exactly if nothing but blanks stands around them; text after them is reported, and text
before them is refused, as is a theory that has rules and gets none. -/
theorem Run.readRules_silent_iff {α σ : Type} {lines : List String} {cs : List Char}
    (hcs : Theory.uncommented lines = .ok cs) (d : Dialect) (label : String) (onto : Theory)
    (v : World α × σ) :
    let found := scan d 0 (Text.expandTabs cs)
    let read := readRules d ⟨label, lines⟩ onto v
    let fails := (found = [] ∧ onto.size ≠ 0) ∨ Preceded found cs
    (∀ f ∈ found, f.Stands d 0 (Text.expandTabs cs)) ∧ ((∃ e v', read = .error e v') ↔ fails) ∧
      ∃ t, found.foldlM (fun t f => t.add f.rule) onto = .ok t ∧
        (∀ u v', read = .ok u v' → u = t) ∧
        (read = .ok t v ↔ ¬ fails ∧ (found = [] → cs = []) ∧ Covered found cs) := by
  obtain ⟨t, ht, hcases⟩ := Theory.extend_of_scan hcs d onto
  refine ⟨(scan_stands d 0 _).1, ?_⟩
  rcases hcases with ⟨hfails, e, he⟩ | ⟨hfails, unread, hok, hiff⟩
  · have hread : readRules d ⟨label, lines⟩ onto v = .error e v := by
      rw [readRules, he]
      rfl
    simp only [hread]
    exact ⟨iff_of_true ⟨e, v, rfl⟩ hfails, t, ht, by simp, iff_of_false (by simp) (absurd hfails ·.1)⟩
  · obtain ⟨v', hread, hv⟩ := readRules_of_ok hok label v
    rw [String.ofList_eq_empty_iff, hiff] at hv
    simp only [hread]
    refine ⟨iff_of_false (by simp) hfails, t, ht, ?_, ?_⟩
    · rintro u w h
      cases h
      rfl
    · simp only [EStateM.Result.ok.injEq, true_and, hv]
      exact ⟨fun h => ⟨hfails, h⟩, fun h => h.2⟩

namespace Sample

/-- Two rules, and other text between them. -/
def strayText : String := "p:-q. x r:-q."

def strayRule (name : String) : Rule := { head := some ⟨name, []⟩, body := [⟨"q", []⟩] }

end Sample

open Sample in
/-- Text between two rules is passed over without a report. -/
theorem readRules_silent_strayText :
    readRules .clause ⟨"rules", [strayText]⟩ { dialect := .clause }
        (({ settings := {} } : World ℚ), ()) =
      .ok ⟨.clause, [("p/0", [strayRule "p"]), ("r/0", [strayRule "r"])]⟩ ({ settings := {} }, ()) := by
  have hcs : Theory.uncommented [strayText] = .ok strayText.toList := by with_unfolding_all rfl
  have hfound : scan .clause 0 (Text.expandTabs strayText.toList) =
      [⟨strayRule "p", 0, 5⟩, ⟨strayRule "r", 8, 13⟩] := by
    with_unfolding_all rfl
  obtain ⟨-, -, t, ht, -, hsilent⟩ := readRules_silent_iff hcs .clause "rules" { dialect := .clause }
    (({ settings := {} } : World ℚ), ())
  rw [hfound] at ht hsilent
  obtain rfl := Except.ok.inj ht
  refine hsilent.2 ⟨by simp [Preceded], by simp, fun i c hc _ => ?_⟩
  obtain ⟨hi, -⟩ := List.getElem?_eq_some_iff.1 hc
  exact ⟨_, mem_cons_self, _, mem_cons_of_mem _ mem_cons_self, Nat.zero_le i, hi⟩

end BeliefLogic
