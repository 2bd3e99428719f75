import BeliefLogic.Proofs.Plan.Search
import BeliefLogic.Proofs.Rule.Forest

/-!
# Messages that pass

A message passes if it meets only relations of one or two arguments, and no name twice. It visits a
part of a forest, and no node of it twice.
-/

namespace BeliefLogic

open Outcome List

theorem Bins.place_perm (e : ℕ × ℕ) (placed : List (ℕ × ℕ)) :
    (Bins.place e placed).Perm (e :: placed) := by
  induction placed with
  | nil => exact .refl _
  | cons x xs ih =>
    rw [Bins.place]
    split
    · exact .refl _
    · exact (ih.cons x).trans (.swap e x xs)

theorem Bins.assign_perm (ns : List ℕ) (placed : List (ℕ × ℕ)) :
    ((Bins.assign ns placed).map (·.2)).Perm (ns ++ placed.map (·.2)) := by
  induction ns generalizing placed with
  | nil => exact .refl _
  | cons n ns ih =>
    refine (ih _).trans (((Bins.place_perm _ placed).map _).append_left ns |>.trans ?_)
    exact perm_middle

theorem Bins.listed_perm (ns : List ℕ) : (Bins.listed ns).Perm ns := by
  unfold Bins.listed
  split
  · exact .refl ns
  · simpa using Bins.assign_perm ns []

namespace Circuit

variable {c : Circuit} {x y u v : String} {body : List Goal} {j g : ℕ} {mode : Mode}

theorem mem_neighbours :
    some g ∈ c.neighbours v j ↔ (c.source v = some g ∨ g ∈ c.uses v) ∧ g ≠ j := by
  simp only [neighbours, mem_filter, mem_cons, mem_map, Option.some.injEq,
    (Bins.listed_perm _).mem_iff, exists_eq_right, decide_eq_true_eq, ne_eq]
  rw [@eq_comm _ (some g)]

/-- A variable stands in a goal, but not as the output of the head. -/
def Stands (c : Circuit) (u : String) : ℕ → Prop
  | 0 => u ∈ c.inputs 0
  | j + 1 => u ∈ c.inputs (j + 1) ∨ u ∈ c.outputs (j + 1)

/-- How the mode of a goal shows one of its arguments. -/
def direction (c : Circuit) (j : ℕ) (x : String) : String :=
  if x ∈ c.inputs j then "i" else if x ∈ c.outputs j then "o" else x

/-- A circuit is that of a head with an input and an output, and a body. -/
structure Describes (c : Circuit) (x y : String) (body : List Goal) : Prop where
  coherent : c.toWiring.Coherent
  covers : c.toWiring.Covers body
  inputs_head : c.inputs 0 = [x]
  outputs_head : c.outputs 0 = [y]
  ne : x ≠ y
  mode : ∀ j mode, c.mode? (j + 1) = some mode → ∃ g, body[j]? = some g ∧
    mode.functor = g.functor ∧ mode.args = g.args.map (c.direction (j + 1)) ∧
    ∀ a ∈ g.args, a = "i" ∨ a = "o" → a ∈ c.inputs (j + 1) ∨ a ∈ c.outputs (j + 1)

/-- A circuit has no neighbour twice, unless a goal computes what it uses. -/
theorem nodup_neighbours (hu : (c.uses v).Nodup)
    (h : ∀ g, c.source v = some g → g ∈ c.uses v → g = j) : (c.neighbours v j).Nodup := by
  rw [neighbours, filter_cons]
  have hnd : ((Bins.listed (c.uses v)).map some).Nodup :=
    ((Bins.listed_perm _).nodup_iff.2 hu).map (Option.some_injective ℕ)
  split
  · next hne =>
    refine nodup_cons.2 ⟨fun hmem => ?_, hnd.filter _⟩
    obtain ⟨hmem, -⟩ := mem_filter.1 hmem
    obtain ⟨g, hg, hsrc⟩ := mem_map.1 hmem
    have := h g hsrc.symm ((Bins.listed_perm _).mem_iff.1 hg)
    simp [← hsrc, this] at hne
  · exact hnd.filter _

namespace Describes

variable (h : c.Describes x y body)
include h

theorem head_notMem_uses (hv : c.source v = some 0) : 0 ∉ c.uses v := by
  intro huse
  have h1 := (h.coherent.source_head v).1 hv
  have h2 := (h.coherent.uses_head v).1 huse
  rw [h.inputs_head, mem_singleton] at h1
  rw [h.outputs_head, mem_singleton] at h2
  exact h.ne (h1.symm.trans h2)

theorem mem_args {g : Goal} (hg : body[j]? = some g) (hu : c.Stands u (j + 1)) :
    u ∈ g.args ∧ isVariableName u = true := by
  obtain ⟨g', hg', hvar⟩ := (h.covers.mem_iff j u).1 hu
  obtain rfl := Option.mem_unique hg hg'
  exact mem_filter.1 hvar

theorem length_args (hm : c.mode? (j + 1) = some mode) : ∃ g, body[j]? = some g ∧
    mode.functor = g.functor ∧ mode.args = g.args.map (c.direction (j + 1)) ∧
    g.args.length = mode.arity := by
  obtain ⟨g, hg, hf, hargs, -⟩ := h.mode j mode hm
  exact ⟨g, hg, hf, hargs, ((congrArg length hargs).trans (length_map _)).symm⟩

theorem arg_of_arity_one (hm : c.mode? (j + 1) = some mode) (ha : mode.arity = 1) :
    ∃ g a, body[j]? = some g ∧ mode.functor = g.functor ∧ g.args = [a] ∧
      ∀ u, c.Stands u (j + 1) → u = a ∧ isVariableName u = true := by
  obtain ⟨g, hg, hf, -, hlen⟩ := h.length_args hm
  obtain ⟨a, hargs⟩ := length_eq_one_iff.1 (hlen.trans ha)
  exact ⟨g, a, hg, hf, hargs, fun u hu => by simpa [hargs] using h.mem_args hg hu⟩

/-- The two variables of a goal with a mode of two arguments. -/
theorem args_of_arity_two (hm : c.mode? (j + 1) = some mode) (ha : mode.arity = 2)
    (hu : c.Stands u (j + 1)) (hv : c.Stands v (j + 1)) (hne : u ≠ v) :
    ∃ g, body[j]? = some g ∧ mode.functor = g.functor ∧ (g.args = [u, v] ∨ g.args = [v, u]) ∧
      mode.args = g.args.map (c.direction (j + 1)) ∧
      ∀ w ∈ c.inputs (j + 1), w ∉ c.outputs (j + 1) := by
  obtain ⟨g, hg, hf, hargs, hlen⟩ := h.length_args hm
  obtain ⟨a, b, hab⟩ := length_eq_two.1 (hlen.trans ha)
  have hu := h.mem_args hg hu
  have hv := h.mem_args hg hv
  have hcases : g.args = [u, v] ∨ g.args = [v, u] := by
    grind
  refine ⟨g, hg, hf, hcases, hargs, h.covers.separate j g hg ?_⟩
  rcases hcases with hcases | hcases
  · simp [Goal.variableNames, hcases, hu.2, hv.2, hne]
  · simp [Goal.variableNames, hcases, hu.2, hv.2, hne.symm]

theorem eq_or_eq_of_stands {w : String} (hm : c.mode? (j + 1) = some mode) (ha : mode.arity = 2)
    (hu : c.Stands u (j + 1)) (hv : c.Stands v (j + 1)) (hne : u ≠ v) (hw : c.Stands w (j + 1)) :
    w = u ∨ w = v := by
  obtain ⟨g, hg, -, hargs, -⟩ := h.args_of_arity_two hm ha hu hv hne
  have hmem := (h.mem_args hg hw).1
  rcases hargs with hargs | hargs
  · simpa [hargs] using hmem
  · simpa [hargs, or_comm] using hmem

end Describes

end Circuit
/-- An operation on relations of one or two arguments. -/
def Operation.Plain : Operation → Prop
  | .act _ (.preimage mode) | .act _ (.product _ mode _) | .call _ _ mode => mode.arity = 2
  | .act _ (.vector mode) => mode.arity = 1
  | .act _ (.plugin _ _) => False
  | .act _ _ => True

variable {c : Circuit} {x y u v : String} {body : List Goal} {q : Request} {m : String}
  {ops : List Operation} {ns : List Node} {j g : ℕ} {gs : List ℕ} {mode : Mode} {F : Forest Node}

namespace Sends

/-- A goal of the body that is asked for a message emits it. -/
theorem message_mem (h : Sends c False q m ops ns) (hplain : ∀ o ∈ ops, o.Plain) :
    match q with
    | .goal j v => j ≠ 0 → c.message j v ∈ ops.map Operation.target
    | .times v _ _ gs => ∀ j ∈ gs, j ≠ 0 → c.message j v ∈ ops.map Operation.target
    | .var _ _ => True := by
  induction h with
  | outside _ hmem => exact (hplain _ hmem).elim
  | head => exact fun h => absurd rfl h
  | assigned | forward | call | row | preimage | backward => simp
  | ask => trivial
  | done => simp
  | factor _ _ ihgoal ihrest =>
    simp only [mem_append, mem_cons, or_imp, forall_and] at hplain
    intro j hj hne
    rw [map_append]
    rcases mem_cons.1 hj with rfl | hj
    · exact mem_append_left _ (ihgoal hplain.1 hne)
    · exact mem_append_right _ (mem_cons_of_mem _ (ihrest hplain.2.2 j hj hne))

/-- A goal asked by a variable does not both compute and use it. -/
def Proper (c : Circuit) : Request → Prop
  | .goal j v => j ≠ 0 → v ∈ c.inputs j → v ∉ c.outputs j
  | .times v _ _ gs => ∀ j ∈ gs, j ≠ 0 → v ∈ c.inputs j → v ∉ c.outputs j
  | .var _ _ => True

/-- A variable that asks each goal once asks none that computes and uses it. -/
theorem proper_of_nodup (hc : c.Describes x y body)
    (hnb : c.neighbours v j = some g :: gs.map some) (hnd : g ≠ 0 → g ∉ gs) :
    (g :: gs).Nodup ∧ Proper c (.goal g v) ∧ ∀ p, Proper c (.times v j p gs) := by
  have hloop (i : ℕ) (hi : i ≠ j) (hsrc : c.source v = some i) (huse : i ∈ c.uses v) : False := by
    obtain ⟨hg, hgs⟩ : some i = some g ∧
        ((Bins.listed (c.uses v)).map some).filter (· ≠ some j) = gs.map some := by
      rw [Circuit.neighbours, hsrc, filter_cons_of_pos (by simpa using hi)] at hnb
      exact List.cons.inj hnb
    obtain rfl := Option.some.inj hg
    have hmem : some i ∈ gs.map some := by
      rw [← hgs, mem_filter]
      exact ⟨mem_map_of_mem ((Bins.listed_perm _).mem_iff.2 huse), by simpa using hi⟩
    cases i with
    | zero => exact hc.head_notMem_uses hsrc huse
    | succ i => exact hnd (Nat.succ_ne_zero i) (by simpa using hmem)
  have hproper (i : ℕ) (hi : some i ∈ c.neighbours v j) : Proper c (.goal i v) := by
    intro hne hin hout
    obtain ⟨i, rfl⟩ := Nat.exists_eq_succ_of_ne_zero hne
    exact hloop (i + 1) (Circuit.mem_neighbours.1 hi).2 ((hc.coherent.source_goal v i).2 hout)
      ((hc.coherent.uses_goal v i).2 hin)
  refine ⟨?_, hproper g (by rw [hnb]; exact mem_cons_self), fun p i hi => hproper i ?_⟩
  · have : (c.neighbours v j).Nodup := Circuit.nodup_neighbours (hc.coherent.uses_nodup v)
      fun i hsrc huse => not_not.1 fun hne => hloop i hne hsrc huse
    rw [hnb, ← map_cons] at this
    exact this.of_map
  · rw [hnb]
    exact mem_cons_of_mem _ (mem_map_of_mem hi)

/-- Plain messages pass, if what is emitted has a variable ask no goal twice. -/
theorem passes_of {P : List Operation → Prop} (hc : c.Describes x y body)
    (hsub : ∀ {ops ops'}, ops.Sublist ops' → P ops' → P ops)
    (hplain : ∀ {ops}, P ops → ∀ o ∈ ops, o.Plain)
    (hask : ∀ {v j g gs m m' ops ops' ns ns'}, c.neighbours v j = some g :: gs.map some →
      Sends c False (.goal g v) m ops ns → Sends c False (.times v j m gs) m' ops' ns' →
      P (ops ++ ops') → g ≠ 0 → g ∉ gs)
    (h : Sends c False q m ops ns) (hP : P ops) (hq : Proper c q) : Passes c q m ops ns := by
  induction h with
  | outside _ hmem => exact (hplain hP _ hmem).elim
  | head hv => exact .head hv
  | assigned h1 h2 h3 h4 h5 h6 h7 => exact .assigned h1 h2 h3 h4 h5 h6 h7
  | @forward j v x' mode m ops ns hv hin _ hm hd _ hs ih
  | @call j v x' mode m ops ns hv hin _ hm hd _ hs ih =>
    have harity : mode.arity = 2 := hplain hP _ (mem_append_right _ (mem_singleton_self _))
    have hne : v ≠ x' := by
      rintro rfl
      exact hq (Nat.succ_ne_zero j) (by simp [hin]) hv
    have hx : x' ∈ c.inputs (j + 1) := by simp [hin]
    obtain ⟨-, -, -, -, -, hsep⟩ := hc.args_of_arity_two hm harity (.inr hv) (.inl hx) hne
    have hpass := ih (hsub (sublist_append_left ..) hP) trivial
    first
    | exact .forward hv hin (fun _ => hsep x' hx) hm hd (fun _ => harity) hpass
    | exact .call hv hin (fun _ => hsep x' hx) hm hd (fun _ => harity) hpass
  | row hin hout hm => exact .row hin hout hm fun _ => hplain hP _ (mem_singleton_self _)
  | preimage hin hv hout huses hm hd =>
    exact .preimage hin hv hout huses hm hd fun _ => hplain hP _ (mem_singleton_self _)
  | backward hin hv hout huses hm _ _ ih =>
    exact .backward hin hv hout huses hm
      (fun _ => hplain hP _ (mem_append_right _ (mem_singleton_self _)))
      (ih (hsub (sublist_append_left ..) hP) trivial)
  | @ask _ _ g gs m _ _ _ _ _ hnb _ hs hs' ih ih' =>
    obtain ⟨hnd, hp, hp'⟩ := proper_of_nodup hc hnb (hask hnb hs hs' hP)
    exact .ask hnb (fun _ => hnd) (ih (hsub (sublist_append_left ..) hP) hp)
      (ih' (hsub (sublist_append_right ..) hP) (hp' m))
  | done => exact .done
  | factor _ _ ih ih' =>
    exact .factor (ih (hsub (sublist_append_left ..) hP) (hq _ mem_cons_self))
      (ih' (hsub ((sublist_cons_self ..).trans (sublist_append_right ..)) hP)
        fun j hj => hq j (mem_cons_of_mem _ hj))

/-- If no name is given twice, messages pass. -/
theorem passes (hc : c.Describes x y body)
    (h : Sends c False q m ops ns) (hplain : ∀ o ∈ ops, o.Plain)
    (hnd : (ops.map Operation.target).Nodup) (hq : Proper c q) : Passes c q m ops ns := by
  refine h.passes_of (P := fun ops => (∀ o ∈ ops, o.Plain) ∧ (ops.map Operation.target).Nodup) hc
    (fun hsub hP => ⟨fun o ho => hP.1 o (hsub.subset ho), (hsub.map _).nodup hP.2⟩) And.left ?_
    ⟨hplain, hnd⟩ hq
  rintro v j g gs m m' ops ops' ns ns' - hs hs' ⟨hplain, hnd⟩ hg hmem
  rw [map_append] at hnd
  simp only [mem_append, or_imp, forall_and] at hplain
  exact disjoint_of_nodup_append hnd (hs.message_mem hplain.1 hg)
    (hs'.message_mem hplain.2 g hmem hg)

/-- If no goal computes what it uses, messages pass. -/
theorem passes_of_separate (hc : c.Describes x y body)
    (hsep : ∀ j, ∀ v ∈ c.inputs (j + 1), v ∉ c.outputs (j + 1))
    (h : Sends c False (.var v j) m ops ns) (hplain : ∀ o ∈ ops, o.Plain) :
    Passes c (.var v j) m ops ns := by
  refine h.passes_of (P := fun ops => ∀ o ∈ ops, o.Plain) hc
    (fun hsub hP o ho => hP o (hsub.subset ho)) id ?_ hplain trivial
  intro v j g gs m m' ops ops' ns ns' hnb _ _ _ hg
  have hnd := Circuit.nodup_neighbours (hc.coherent.uses_nodup v) (j := j) fun i hsrc huse => by
    cases i with
    | zero => exact absurd huse (hc.head_notMem_uses hsrc)
    | succ i =>
      exact absurd ((hc.coherent.source_goal v i).1 hsrc)
        (hsep i v ((hc.coherent.uses_goal v i).1 huse))
  rw [hnb] at hnd
  simpa using (nodup_cons.1 hnd).1

end Sends

namespace Circuit

/-- The parent of a variable computes it; that of a goal is what it uses only. -/
def parent (c : Circuit) : Node → Option Node
  | .var v => (c.source v).map .goal
  | .goal 0 => none
  | .goal (j + 1) => ((c.inputs (j + 1)).find? (· ∉ c.outputs (j + 1))).map .var

/-- Goals rank by number, and variables right after the goals that compute them. -/
def rank (c : Circuit) : Node → ℕ
  | .goal j => 2 * j
  | .var v => 2 * (c.source v).getD 0 + 1

def Describes.forest (h : c.Describes x y body) : Forest Node where
  parent := c.parent
  rank := c.rank
  rank_lt {a b} hab := by
    cases a with
    | var v =>
      obtain ⟨g, hg, rfl⟩ := Option.map_eq_some_iff.1 hab
      simp [rank, hg]
    | goal j =>
      cases j with
      | zero => cases hab
      | succ j =>
        obtain ⟨u, hu, rfl⟩ := Option.map_eq_some_iff.1 hab
        have hout : u ∉ c.outputs (j + 1) := by simpa using find?_some hu
        obtain ⟨i, hi, hle⟩ := h.coherent.source_le u j (mem_of_find?_eq_some hu)
        have hne : i ≠ j + 1 := by
          rintro rfl
          exact hout ((h.coherent.source_goal u j).1 hi)
        simp only [rank, hi, Option.getD_some]
        omega

namespace Describes

variable (h : c.Describes x y body)
include h

theorem adjacent_of_output (hv : v ∈ c.outputs (j + 1)) :
    h.forest.Adjacent (.goal (j + 1)) (.var v) :=
  .inr (by simp [forest, parent, (h.coherent.source_goal v j).2 hv])

theorem adjacent_of_head (hv : v ∈ c.inputs 0) :
    h.forest.Adjacent (.goal 0) (.var v) :=
  .inr (by simp [forest, parent, (h.coherent.source_head v).2 hv])

theorem adjacent_of_input (hv : v ∈ c.inputs (j + 1)) (hv' : v ∉ c.outputs (j + 1))
    (huniq : ∀ u ∈ c.inputs (j + 1), u ∉ c.outputs (j + 1) → u = v) :
    h.forest.Adjacent (.goal (j + 1)) (.var v) := by
  refine .inl ?_
  cases hfind : (c.inputs (j + 1)).find? (· ∉ c.outputs (j + 1)) with
  | none => exact absurd (find?_eq_none.1 hfind v hv) (by simpa using hv')
  | some u =>
    have hu := huniq u (mem_of_find?_eq_some hfind) (by simpa using find?_some hfind)
    rw [hu] at hfind
    change ((c.inputs (j + 1)).find? (· ∉ c.outputs (j + 1))).map Node.var = _
    rw [hfind]
    rfl

/-- The only input of a goal of two arguments with another output. -/
theorem adjacent_of_arity_two {y' : String} (hv : v ∈ c.inputs (j + 1))
    (hv' : v ∉ c.outputs (j + 1)) (hout : c.outputs (j + 1) = [y'])
    (hm : c.mode? (j + 1) = some mode) (ha : mode.arity = 2) :
    h.forest.Adjacent (.goal (j + 1)) (.var v) := by
  refine h.adjacent_of_input hv hv' fun u hu hu' => ?_
  have hy : y' ∈ c.outputs (j + 1) := by simp [hout]
  by_contra huv
  rcases h.eq_or_eq_of_stands hm ha (.inl hu) (.inl hv) huv (.inr hy) with rfl | rfl
  · exact hu' hy
  · exact hv' hy

end Describes

end Circuit

namespace Sends

/-- A goal is next to the variable that asks it. -/
theorem adjacent (hc : c.Describes x y body) (h : Passes c (.goal j v) m ops ns) :
    hc.forest.Adjacent (.goal j) (.var v) := by
  cases h with
  | outside hno => exact absurd trivial hno
  | head hv => exact hc.adjacent_of_head hv
  | assigned hv | forward hv | call hv => exact hc.adjacent_of_output hv
  | row hv hout hm ha =>
    obtain ⟨-, a, -, -, -, ha⟩ := hc.arg_of_arity_one hm (ha trivial)
    exact hc.adjacent_of_input hv (by simp [hout]) fun u hu _ =>
      (ha u (.inl hu)).1.trans (ha _ (.inl hv)).1.symm
  | preimage hv hv' hout _ hm _ ha | backward hv hv' hout _ hm ha =>
    exact hc.adjacent_of_arity_two hv hv' hout hm (ha trivial)

/-- Where the nodes that are visited for a message are. -/
def Located (F : Forest Node) (c : Circuit) (ns : List Node) : Request → Prop
  | .goal j v => ∀ z ∈ ns, F.Beyond (.goal j) (.var v) z
  | .var v j => ∀ z ∈ ns, ∃ g, some g ∈ c.neighbours v j ∧ F.Adjacent (.goal g) (.var v) ∧
      F.Beyond (.goal g) (.var v) z
  | .times v _ _ gs => ∀ z ∈ ns, ∃ g ∈ gs, F.Adjacent (.goal g) (.var v) ∧
      F.Beyond (.goal g) (.var v) z

/-- Going on from a goal to another of its variables. -/
theorem located_step (hv : F.Adjacent (.goal g) (.var v))
    (hu : F.Adjacent (.goal g) (.var u)) (hne : u ≠ v) (h : ns.Nodup ∧ Located F c ns (.var u g)) :
    (Node.goal g :: .var u :: ns).Nodup ∧ Located F c (.goal g :: .var u :: ns) (.goal g v) := by
  obtain ⟨hnd, hloc⟩ := h
  have hbehind (z : Node) (hz : z ∈ ns) : F.Beyond (.var u) (.goal g) z := by
    obtain ⟨g', hg', hadj, hz⟩ := hloc z hz
    refine Forest.Beyond.behind hadj ?_ hz
    simpa using (Circuit.mem_neighbours.1 hg').2
  refine ⟨nodup_cons.2 ⟨?_, nodup_cons.2 ⟨?_, hnd⟩⟩, ?_⟩
  · simp only [mem_cons, reduceCtorEq, false_or]
    exact fun hmem => hu.symm.not_beyond_right (hbehind _ hmem)
  · intro hmem
    obtain ⟨g', -, hadj, hz⟩ := hloc _ hmem
    exact hadj.not_beyond_right hz
  · have hstep (z : Node) (hz : F.Beyond (.var u) (.goal g) z) : F.Beyond (.goal g) (.var v) z :=
      Forest.Beyond.behind hu.symm (by simpa using hne) hz
    intro z hz
    simp only [mem_cons] at hz
    rcases hz with rfl | rfl | hz
    · exact hv.beyond_left
    · exact hstep _ hu.symm.beyond_left
    · exact hstep _ (hbehind z hz)

/-- The goals that are still to be asked are different. -/
def Distinct : Request → Prop
  | .times _ _ _ gs => gs.Nodup
  | _ => True

/-- Nodes visited for a goal and for others that a variable asks. -/
theorem located_append {p : String} {ns' : List Node} (hg : g ∉ gs)
    (hadj : F.Adjacent (.goal g) (.var v)) (h : ns.Nodup ∧ Located F c ns (.goal g v))
    (h' : ns'.Nodup ∧ Located F c ns' (.times v j p gs)) :
    (ns ++ ns').Nodup ∧ Located F c (ns ++ ns') (.times v j p (g :: gs)) := by
  refine ⟨h.1.append h'.1 fun z hz hz' => ?_, fun z hz => ?_⟩
  · obtain ⟨g', hg', hadj', hz'⟩ := h'.2 z hz'
    refine Forest.Beyond.disjoint hadj hadj' ?_ (h.2 z hz) hz'
    simp only [ne_eq, Node.goal.injEq]
    rintro rfl
    exact hg hg'
  · rcases mem_append.1 hz with hz | hz
    · exact ⟨g, mem_cons_self, hadj, h.2 z hz⟩
    · obtain ⟨g', hg', hz⟩ := h'.2 z hz
      exact ⟨g', mem_cons_of_mem _ hg', hz⟩

theorem located (hc : c.Describes x y body) (h : Passes c q m ops ns) (hq : Distinct q) :
    ns.Nodup ∧ Located hc.forest c ns q := by
  have hall := h
  induction h with
  | outside hno => exact absurd trivial hno
  | head hv =>
    exact ⟨nodup_singleton _, fun z hz =>
      mem_singleton.1 hz ▸ (hc.adjacent_of_head hv).beyond_left⟩
  | assigned | row =>
    exact ⟨nodup_singleton _, fun z hz =>
      mem_singleton.1 hz ▸ (hall.adjacent hc).beyond_left⟩
  | forward hv hin hx _ _ _ hs ih | call hv hin hx _ _ _ hs ih =>
    have hu := hc.adjacent_of_input (by simp [hin]) (hx trivial) (by simp [hin])
    exact located_step (hall.adjacent hc) hu (fun heq => hx trivial (heq ▸ hv)) (ih trivial hs)
  | @preimage j _ y' _ _ hv' hout _ _ _ _ =>
    have hy : y' ∈ c.outputs (j + 1) := by simp [hout]
    exact located_step (hall.adjacent hc) (hc.adjacent_of_output hy) (fun heq => hv' (heq ▸ hy))
      ⟨nodup_nil, by simp [Located]⟩
  | @backward j _ y' _ _ _ _ _ hv' hout _ _ _ hs ih =>
    have hy : y' ∈ c.outputs (j + 1) := by simp [hout]
    exact located_step (hall.adjacent hc) (hc.adjacent_of_output hy) (fun heq => hv' (heq ▸ hy))
      (ih trivial hs)
  | ask hnb hnd hs hs' ih ih' =>
    obtain ⟨hg, hgs⟩ := nodup_cons.1 (hnd trivial)
    obtain ⟨hns, hloc⟩ := located_append hg (hs.adjacent hc) (ih trivial hs) (ih' hgs hs')
    refine ⟨hns, fun z hz => ?_⟩
    obtain ⟨g', hg', hz⟩ := hloc z hz
    refine ⟨g', ?_, hz⟩
    rw [hnb]
    exact mem_map_of_mem hg'
  | done => exact ⟨nodup_nil, by simp [Located]⟩
  | factor hs hs' ih ih' =>
    obtain ⟨hg, hgs⟩ := nodup_cons.1 hq
    exact located_append hg (hs.adjacent hc) (ih trivial hs) (ih' hgs hs')

end Sends

end BeliefLogic
