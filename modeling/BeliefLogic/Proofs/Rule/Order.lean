import BeliefLogic.Proofs.Outcome

/-!
# Orders of goals

Taking a goal early only makes more variables known, so an order is found whenever there is one.
-/

namespace BeliefLogic

open List

namespace Goal

variable {known all : List String} {g : Goal} {gs gs' left : List Goal}

/-- A goal can start with a known variable, a constant, or one argument. -/
def CanStart (known : List String) (g : Goal) : Prop :=
  (∃ v ∈ g.variableNames, v ∈ known) ∨
    (g.functor = assignment ∧ (g.arity = 2 ∨ g.arity = 3)) ∨ g.arity = 1

/-- Each goal can start when it is reached. -/
def InOrder : List String → List Goal → Prop
  | _, [] => True
  | known, g :: gs => g.CanStart known ∧ InOrder (known ++ g.variableNames) gs

theorem isReady_iff : g.isReady known = true ↔ g.CanStart known := by
  have harity : (2 ≤ g.arity ∧ g.arity ≤ 3) ↔ (g.arity = 2 ∨ g.arity = 3) := by omega
  simp [isReady, isAssignment, CanStart, and_assoc, or_assoc, harity]

theorem CanStart.mono (h : g.CanStart known) (hall : known ⊆ all) : g.CanStart all :=
  h.imp_left fun hv => hv.imp fun _ hv => ⟨hv.1, hall hv.2⟩

theorem inOrder_append : InOrder known (gs ++ gs') ↔
    InOrder known gs ∧ InOrder (known ++ gs.flatMap variableNames) gs' := by
  induction gs generalizing known with
  | nil => simp [InOrder]
  | cons g gs ih => simp [InOrder, ih, and_assoc]

theorem InOrder.exists_isReady (h : InOrder known gs) :
    ∀ g ∈ gs, ∃ known', g.isReady known' = true := by
  induction gs generalizing known with
  | nil => simp
  | cons g gs ih => exact forall_mem_cons.2 ⟨⟨known, isReady_iff.2 h.1⟩, ih h.2⟩

/-- Going through goals loses none and knows the variables of those taken. -/
theorem takeReady_spec (known : List String) (gs : List Goal) :
    ((takeReady known gs).1 ++ (takeReady known gs).2.1).Perm gs ∧
      InOrder known (takeReady known gs).1 ∧
      (takeReady known gs).2.2 = known ++ (takeReady known gs).1.flatMap variableNames := by
  induction gs generalizing known with
  | nil => simp [takeReady, InOrder]
  | cons g gs ih =>
    by_cases h : g.isReady known = true
    · obtain ⟨hperm, horder, hknown⟩ := ih (known ++ g.variableNames)
      simp only [takeReady, h]
      exact ⟨hperm.cons g, ⟨isReady_iff.1 h, horder⟩, by simp [hknown]⟩
    · obtain ⟨hperm, horder, hknown⟩ := ih known
      simp only [takeReady, h]
      exact ⟨perm_middle.trans (hperm.cons g), horder, hknown⟩

/-- If going through goals takes none, none can start. -/
theorem not_canStart_of_length_le (h : gs.length ≤ (takeReady known gs).2.1.length) :
    ∀ g ∈ gs, ¬g.CanStart known := by
  induction gs generalizing known with
  | nil => simp
  | cons g gs ih =>
    by_cases hg : g.isReady known = true
    · rw [takeReady, if_pos hg] at h
      exact absurd (length_takeReady_le _ gs) (not_le.2 h)
    · rw [takeReady, if_neg hg] at h
      exact forall_mem_cons.2 ⟨mt isReady_iff.2 hg, ih (Nat.le_of_succ_le_succ h)⟩

theorem ordered?_some (h : ordered? known gs = some gs') : gs'.Perm gs ∧ InOrder known gs' := by
  fun_induction ordered? known gs generalizing gs' with
  | case1 => simp_all [InOrder]
  | case2 known g gs pass hlt =>
    rename_i ih
    obtain ⟨left, hleft, rfl⟩ := Option.map_eq_some_iff.1 h
    obtain ⟨hperm, horder, hknown⟩ := takeReady_spec known (g :: gs)
    obtain ⟨hrest, hinOrder⟩ := ih hleft
    exact ⟨(hrest.append_left _).trans hperm, inOrder_append.2 ⟨horder, hknown ▸ hinOrder⟩⟩
  | case3 => simp at h

/-- If no order is found, some goals left cannot start. -/
theorem ordered?_none (h : ordered? known gs = none) : ∃ taken left, (taken ++ left).Perm gs ∧
    left ≠ [] ∧ ∀ g ∈ left, ¬g.CanStart (known ++ taken.flatMap variableNames) := by
  fun_induction ordered? known gs with
  | case1 => simp at h
  | case2 known g gs pass hlt =>
    rename_i ih
    obtain ⟨hperm, -, hknown⟩ := takeReady_spec known (g :: gs)
    obtain ⟨taken, left, hrest, hne, hstuck⟩ := ih (Option.map_eq_none_iff.1 h)
    refine ⟨pass.1 ++ taken, left, ?_, hne, fun g hg hstart => hstuck g hg ?_⟩
    · rw [append_assoc]
      exact (hrest.append_left _).trans hperm
    · rwa [hknown, append_assoc, ← flatMap_append]
  | case3 known g gs pass hlt =>
    refine ⟨[], g :: gs, .refl _, by simp, ?_⟩
    simpa using not_canStart_of_length_le (not_lt.1 hlt)

/-- The first goal left in an order can start from what is known. -/
theorem InOrder.exists_canStart (h : InOrder known gs) (hknown : known ⊆ all)
    (hvars : ∀ g ∈ gs, g ∉ left → g.variableNames ⊆ all) (hleft : ∃ g ∈ gs, g ∈ left) :
    ∃ g ∈ left, g.CanStart all := by
  induction gs generalizing known with
  | nil => simp at hleft
  | cons g gs ih =>
    by_cases hg : g ∈ left
    · exact ⟨g, hg, h.1.mono hknown⟩
    · obtain ⟨hvar, hrest⟩ := forall_mem_cons.1 hvars
      obtain ⟨g', hg', hmem⟩ := hleft
      have hin : g' ∈ gs := (mem_cons.1 hg').resolve_left fun he => hg (he ▸ hmem)
      exact ih h.2 (append_subset.2 ⟨hknown, hvar hg⟩) hrest ⟨g', hin, hmem⟩

/-- An order is found exactly if there is one. -/
theorem exists_ordered?_iff : (∃ gs', ordered? known gs = some gs') ↔
    ∃ gs', gs'.Perm gs ∧ InOrder known gs' := by
  refine ⟨fun h => h.imp fun _ => ordered?_some, fun h => ?_⟩
  obtain ⟨gs', hperm, horder⟩ := h
  by_contra hnone
  have hnone := Option.eq_none_iff_forall_ne_some.2 fun gs' he => hnone ⟨gs', he⟩
  obtain ⟨taken, left, hall, hne, hstuck⟩ := ordered?_none hnone
  obtain ⟨first, hfirst⟩ := exists_mem_of_ne_nil left hne
  have hmem (g : Goal) : g ∈ gs' ↔ g ∈ taken ∨ g ∈ left := by
    rw [← mem_append, hall.mem_iff, hperm.mem_iff]
  have hvars : ∀ g ∈ gs', g ∉ left → g.variableNames ⊆ known ++ taken.flatMap variableNames := by
    intro g hg hnot v hv
    exact mem_append_right _ (mem_flatMap.2 ⟨g, ((hmem g).1 hg).resolve_right hnot, hv⟩)
  obtain ⟨g, hg, hstart⟩ := horder.exists_canStart (subset_append_left _ _) hvars
    ⟨first, (hmem first).2 (.inr hfirst), hfirst⟩
  exact hstuck g hg hstart

theorem of_isReady (h : g.isReady known = true) (hvars : g.variableNames = []) :
    g.isAssignment = true ∨ g.arity = 1 := by
  simpa [isReady, hvars] using h

/-- The arguments of a head that a mode gives. -/
def given (head : Goal) (mode : Mode) : List String :=
  (head.args.zipIdx.filter fun a => mode.isInput a.2).map (·.1)

end Goal

namespace Rule

variable {r : Rule} {head : Goal} {mode : Mode}

/-- A rule is put into order exactly if its head fits the mode and its goals have an order. -/
theorem reorder_ok_iff {r' : Rule} {d : Dialect} : r.reorder mode d = .ok r' ↔
    ∃ head body, r.head = some head ∧ head.arity ≤ mode.arity ∧ (∀ g ∈ r.body, "" ∉ g.args) ∧
      Goal.ordered? (head.given mode) r.body = some body ∧ r' = { r with body } := by
  have hempty : (r.body.any fun g => g.args.contains "") = true ↔ ¬∀ g ∈ r.body, "" ∉ g.args := by
    simp
  rw [reorder]
  cases r.head with
  | none => simp
  | some head =>
    by_cases harity : mode.arity < head.arity
    · simp [harity]
    · by_cases hnames : ∀ g ∈ r.body, "" ∉ g.args
      · simp only [harity, if_false, if_neg (mt hempty.1 (not_not.2 hnames))]
        split
        · next body hbody =>
          have hbody : Goal.ordered? (head.given mode) r.body = some body := hbody
          simpa [not_lt.1 harity, hbody, eq_comm] using fun _ => hnames
        · next hnone =>
          have hnone : Goal.ordered? (head.given mode) r.body = none := hnone
          simp [hnone]
      · simp only [harity, if_pos (hempty.2 hnames)]
        simp [hnames]

/-- A rule can be put into order exactly if its goals have an order in which each can start. It then
has such an order, and is the same otherwise, however its body was written. -/
theorem reorder_complete (d : Dialect) (hhead : r.head = some head)
    (harity : mode.arity = head.arity) (hnames : ∀ g ∈ r.body, "" ∉ g.args) :
    ((∃ r', r.reorder mode d = .ok r') ↔
      ∃ body, body.Perm r.body ∧ Goal.InOrder (head.given mode) body) ∧
    (∀ r', r.reorder mode d = .ok r' → r' = { r with body := r'.body } ∧
      r'.body.Perm r.body ∧ Goal.InOrder (head.given mode) r'.body) ∧
    ∀ body, body.Perm r.body →
      ((∃ r', { r with body }.reorder mode d = .ok r') ↔ ∃ r', r.reorder mode d = .ok r') := by
  have hiff {body : List Goal} (hperm : body.Perm r.body) :
      (∃ r', { r with body }.reorder mode d = .ok r') ↔
        ∃ body', body'.Perm body ∧ Goal.InOrder (head.given mode) body' := by
    have hbody : ∀ g ∈ body, "" ∉ g.args := fun g hg => hnames g (hperm.mem_iff.1 hg)
    rw [← Goal.exists_ordered?_iff]
    simpa [reorder_ok_iff, hhead, harity.ge] using fun _ _ => hbody
  refine ⟨hiff (.refl _), fun r' h => ?_, fun body hperm => ?_⟩
  · obtain ⟨_, body, hhead', -, -, hbody, rfl⟩ := reorder_ok_iff.1 h
    obtain rfl := Option.mem_unique hhead hhead'
    exact ⟨rfl, Goal.ordered?_some hbody⟩
  · rw [hiff hperm, hiff (.refl _)]
    exact exists_congr fun body' => and_congr_left fun _ =>
      ⟨fun h => h.trans hperm, fun h => h.trans hperm.symm⟩

/-- A path of two edges, written from its end. -/
def backward : Rule where
  head := some ⟨"path", ["X", "Y"]⟩
  body := [⟨"edge", ["Z", "Y"]⟩, ⟨"edge", ["X", "Z"]⟩]

theorem reorder_complete_backward :
    ∃ r', backward.reorder (.inputOutput "path") .clause = .ok r' := by
  have harity : (Mode.inputOutput "path").arity = (⟨"path", ["X", "Y"]⟩ : Goal).arity := rfl
  refine (reorder_complete (r := backward) .clause rfl harity (by decide)).1.2
    ⟨[⟨"edge", ["X", "Z"]⟩, ⟨"edge", ["Z", "Y"]⟩], .swap _ _ _, ?_⟩
  refine ⟨.inl ⟨"X", ?_, ?_⟩, .inl ⟨"Z", ?_, ?_⟩, trivial⟩ <;> decide +kernel

end Rule

end BeliefLogic
