import BeliefLogic.Proofs.Plan.Passes

/-!
# What messages visit

What the messages of a rule visit is sealed, and its parts have nothing in common.
-/

namespace BeliefLogic

open List

variable {u v : String} {g j : ℕ} {ns : List Node}

/-- Assignments of constants have one output. -/
def Circuit.Assigns (c : Circuit) : Prop :=
  ∀ j mode, c.mode? (j + 1) = some mode → mode.functor = assignment → mode.isConst 1 = true →
    ∀ u ∈ c.outputs (j + 1), ∀ v ∈ c.outputs (j + 1), u = v

namespace Circuit.Describes

variable {c : Circuit} {x y : String} {body : List Goal} (hc : c.Describes x y body)
include hc

theorem stands_iff :
    c.Stands u g ↔ c.source u = some g ∨ (g ∈ c.uses u ∧ g ≠ 0) := by
  cases g with
  | zero => simp [Circuit.Stands, hc.coherent.source_head]
  | succ j => simp [Circuit.Stands, hc.coherent.source_goal, hc.coherent.uses_goal, or_comm]

theorem not_stands_head : ¬c.Stands y 0 := by
  simp only [Circuit.Stands, hc.inputs_head, mem_singleton]
  exact hc.ne.symm

theorem not_stands_extra (v : String) : ¬c.Stands v (body.length + 1) := by
  intro hv
  obtain ⟨g, hg, -⟩ := (hc.covers.mem_iff body.length v).1 hv
  simp at hg

theorem exists_stands (h : ∃ g ∈ body, v ∈ g.variableNames) :
    ∃ j, c.Stands v (j + 1) := by
  obtain ⟨g, hg, hv⟩ := h
  obtain ⟨j, hj⟩ := mem_iff_getElem?.1 hg
  exact ⟨j, (hc.covers.mem_iff j v).2 ⟨g, hj, hv⟩⟩

theorem exists_stands_output (h : ∃ g, c.Stands y g) : ∃ j, c.Stands y (j + 1) := by
  obtain ⟨g, hg⟩ := h
  cases g with
  | zero => exact absurd hg hc.not_stands_head
  | succ j => exact ⟨j, hg⟩

end Circuit.Describes

@[simp] theorem Node.mem_variables :
    v ∈ Node.variables ns ↔ .var v ∈ ns := by
  induction ns with
  | nil => simp
  | cons z ns ih => cases z <;> simp [ih]

def Request.name : Request → String
  | .goal _ v | .var v _ | .times v _ _ _ => v

def Circuit.Asks (c : Circuit) : Request → ℕ → Prop
  | .goal j _, g => g = j
  | .var v j, g => some g ∈ c.neighbours v j
  | .times _ _ _ gs, g => g ∈ gs

/-- The goals asked are visited, with every goal of a variable visited. -/
structure Circuit.Visits (c : Circuit) (q : Request) (ns : List Node) : Prop where
  var : ∀ u, .var u ∈ ns → ∃ j, c.Stands u (j + 1)
  goal : ∀ g, .goal g ∈ ns → ∃ u, c.Stands u g
  asked : ∀ g, c.Asks q g → .goal g ∈ ns
  closed : ∀ u g, .var u ∈ ns → c.Stands u g → .goal g ∈ ns

namespace Circuit.Visits

variable {c : Circuit}

theorem leaf (hv : c.Stands v j) : c.Visits (.goal j v) [.goal j] where
  var u hu := by simp at hu
  goal g hg := by
    obtain rfl : g = j := by simpa using hg
    exact ⟨v, hv⟩
  asked g hg := by simp [show g = j from hg]
  closed u g hu := by simp at hu

theorem step {x y : String} {body : List Goal} (hc : c.Describes x y body)
    (h : c.Visits (.var u (j + 1)) ns) (hu : c.Stands u (j + 1)) :
    c.Visits (.goal (j + 1) v) (.goal (j + 1) :: .var u :: ns) where
  var w hw := by
    simp only [mem_cons, reduceCtorEq, Node.var.injEq, false_or] at hw
    rcases hw with rfl | hw
    · exact ⟨j, hu⟩
    · exact h.var w hw
  goal g hg := by
    simp only [mem_cons, reduceCtorEq, Node.goal.injEq, false_or] at hg
    rcases hg with rfl | hg
    · exact ⟨u, hu⟩
    · exact h.goal g hg
  asked g hg := by simp [show g = j + 1 from hg]
  closed w g hw hs := by
    simp only [mem_cons, reduceCtorEq, Node.var.injEq, false_or, Node.goal.injEq] at hw ⊢
    by_cases hg : g = j + 1
    · exact .inl hg
    refine .inr ?_
    rcases hw with rfl | hw
    · refine h.asked g (Circuit.mem_neighbours.2 ⟨?_, hg⟩)
      exact (hc.stands_iff.1 hs).imp_right And.left
    · exact h.closed w g hw hs

/-- A goal and others that a variable asks. -/
theorem append {p p' : String} {gs : List ℕ} {ns ns' : List Node} (h : c.Visits (.goal g v) ns)
    (h' : c.Visits (.times v j p gs) ns') :
    c.Visits (.times v j p' (g :: gs)) (ns ++ ns') where
  var u hu := (mem_append.1 hu).elim (h.var u) (h'.var u)
  goal i hi := (mem_append.1 hi).elim (h.goal i) (h'.goal i)
  asked i hi := by
    rcases mem_cons.1 hi with rfl | hi
    · exact mem_append_left _ (h.asked i rfl)
    · exact mem_append_right _ (h'.asked i hi)
  closed u i hu hs := by
    rcases mem_append.1 hu with hu | hu
    · exact mem_append_left _ (h.closed u i hu hs)
    · exact mem_append_right _ (h'.closed u i hu hs)

end Circuit.Visits

namespace Sends

variable {c : Circuit} {x y : String} {body : List Goal} {q : Request} {m : String}
  {ops : List Operation}

theorem visits (hc : c.Describes x y body) (h : Passes c q m ops ns) : c.Visits q ns := by
  induction h with
  | outside hno => exact absurd trivial hno
  | head hv => exact .leaf hv
  | assigned hv => exact .leaf (.inr hv)
  | row hv => exact .leaf (.inl hv)
  | forward _ hin _ _ _ _ _ ih | call _ hin _ _ _ _ _ ih => exact ih.step hc (.inl (by simp [hin]))
  | @preimage j _ y' _ _ _ hout huses _ _ _ =>
    have hy : y' ∈ c.outputs (j + 1) := by simp [hout]
    have hsource := (hc.coherent.source_goal y' j).2 hy
    have hleaf : c.Visits (.var y' (j + 1)) [] := by
      refine ⟨by simp, by simp, fun g hg => ?_, by simp⟩
      have := Circuit.mem_neighbours.1 hg
      simp [hsource, huses, eq_comm] at this
    exact hleaf.step hc (.inr hy)
  | backward hv hv' hout huses hm ha hs ih => exact ih.step hc (.inr (by simp [hout]))
  | @ask v j g gs m _ _ _ ns ns' hnb _ _ _ ih ih' =>
    have hall : c.Visits (.times v j m (g :: gs)) (ns ++ ns') := ih.append ih'
    refine ⟨hall.var, hall.goal, fun i hi => hall.asked i ?_, hall.closed⟩
    have hi : some i ∈ c.neighbours v j := hi
    rw [hnb] at hi
    exact (mem_map_of_injective (Option.some_injective ℕ)).1 hi
  | done => exact ⟨by simp, by simp, by simp [Circuit.Asks], by simp⟩
  | factor _ _ ih ih' => exact ih.append ih'

/-- The variables of the goals visited, but for the one that asks. -/
def Bounded (c : Circuit) (v : String) (ns : List Node) : Prop :=
  ∀ u g, .goal g ∈ ns → c.Stands u g → .var u ∈ ns ∨ u = v

theorem bounded_leaf (h : ∀ u, c.Stands u j → u = v) :
    Bounded c v [.goal j] := by
  intro u g hg hu
  obtain rfl : g = j := by simpa using hg
  exact .inr (h u hu)

theorem bounded_step (h : Bounded c u ns)
    (hj : ∀ w, c.Stands w (j + 1) → w = u ∨ w = v) :
    Bounded c v (.goal (j + 1) :: .var u :: ns) := by
  intro w g hg hs
  simp only [mem_cons, reduceCtorEq, Node.var.injEq, false_or, Node.goal.injEq] at hg ⊢
  rcases hg with rfl | hg
  · exact (hj w hs).imp_left .inl
  · exact .inl (h w g hg hs).symm

theorem bounded_append {ns ns' : List Node} (h : Bounded c v ns) (h' : Bounded c v ns') :
    Bounded c v (ns ++ ns') := by
  intro u i hi hs
  rcases mem_append.1 hi with hi | hi
  · exact (h u i hi hs).imp_left (mem_append_left _)
  · exact (h' u i hi hs).imp_left (mem_append_right _)

/-- With a goal all its other variables are visited. -/
theorem bounded (hc : c.Describes x y body) (hone : c.Assigns) (h : Passes c q m ops ns) :
    Bounded c q.name ns := by
  induction h with
  | outside hno => exact absurd trivial hno
  | head hv =>
    refine bounded_leaf fun u hu => ?_
    have hu : u ∈ c.inputs 0 := hu
    rw [hc.inputs_head, mem_singleton] at hu hv
    rw [hu, hv]
    rfl
  | @assigned j v mode hv hin hm hf _ _ hconst =>
    refine bounded_leaf fun u hu => ?_
    rcases hu with hu | hu
    · simp [hin] at hu
    · exact hone j mode hm hf hconst u hu v hv
  | forward hv hin hx hm _ ha _ ih | call hv hin hx hm _ ha _ ih =>
    exact bounded_step ih fun w =>
      hc.eq_or_eq_of_stands hm (ha trivial) (.inl (by simp [hin])) (.inr hv)
        (fun heq => hx trivial (heq ▸ hv))
  | row hv hout hm ha =>
    obtain ⟨-, a, -, -, -, ha⟩ := hc.arg_of_arity_one hm (ha trivial)
    exact bounded_leaf fun u hu => (ha u hu).1.trans (ha _ (.inl hv)).1.symm
  | @preimage j v y' _ hv hv' hout _ hm _ ha =>
    have hy : y' ∈ c.outputs (j + 1) := by simp [hout]
    have hne : y' ≠ v := fun heq => hv' (heq ▸ hy)
    exact bounded_step (by simp [Bounded]) fun w =>
      hc.eq_or_eq_of_stands hm (ha trivial) (.inr hy) (.inl hv) hne
  | @backward j v y' _ _ _ _ hv hv' hout _ hm ha _ ih =>
    have hy : y' ∈ c.outputs (j + 1) := by simp [hout]
    have hne : y' ≠ v := fun heq => hv' (heq ▸ hy)
    exact bounded_step ih fun w =>
      hc.eq_or_eq_of_stands hm (ha trivial) (.inr hy) (.inl hv) hne
  | ask _ _ _ _ ih ih' => exact bounded_append ih ih'
  | done => simp [Bounded]
  | factor _ _ ih ih' => exact bounded_append ih ih'

theorem name_notMem (hc : c.Describes x y body) (h : Passes c q m ops ns) (hq : Distinct q) :
    .var q.name ∉ ns := by
  have hloc := (h.located hc hq).2
  intro hmem
  cases q with
  | goal j v => exact (h.adjacent hc).not_beyond_right (hloc _ hmem)
  | var v j =>
    obtain ⟨g, -, hadj, hz⟩ := hloc _ hmem
    exact hadj.not_beyond_right hz
  | times v j p gs =>
    obtain ⟨g, -, hadj, hz⟩ := hloc _ hmem
    exact hadj.not_beyond_right hz

theorem apart (hc : c.Describes x y body) (hs : Passes c (.var u g) m ops ns) (hv : .var v ∉ ns)
    (hg : ∀ a, c.Stands a g → a = u ∨ a = v) (a : String) (ha : .var a ∈ ns) : ¬c.Stands a g := by
  intro hstands
  rcases hg a hstands with rfl | rfl
  · exact hs.name_notMem hc trivial ha
  · exact hv ha

end Sends

/-- A variable is there exactly with all goals in which it stands. -/
def Circuit.Sealed (c : Circuit) (ns : List Node) : Prop :=
  ∀ u g, c.Stands u g → (.var u ∈ ns ↔ .goal g ∈ ns)

/-- A part of a rule: sealed nodes of the rule, each once. -/
structure Circuit.Region (c : Circuit) (ns : List Node) : Prop where
  sealed : c.Sealed ns
  nodup : ns.Nodup
  var : ∀ u, .var u ∈ ns → ∃ j, c.Stands u (j + 1)
  goal : ∀ g, .goal g ∈ ns → ∃ u, c.Stands u g

namespace Circuit.Region

variable {c : Circuit} {ns' : List Node}

theorem nil : c.Region [] where
  sealed u g _ := by simp
  nodup := nodup_nil
  var u h := by simp at h
  goal g h := by simp at h

theorem append (h : c.Region ns) (h' : c.Region ns') (hdisj : ns.Disjoint ns') :
    c.Region (ns ++ ns') where
  sealed u g hs := by rw [mem_append, mem_append, h.sealed u g hs, h'.sealed u g hs]
  nodup := h.nodup.append h'.nodup hdisj
  var u hu := (mem_append.1 hu).elim (h.var u) (h'.var u)
  goal g hg := (mem_append.1 hg).elim (h.goal g) (h'.goal g)

end Circuit.Region

def Request.start : Request → Node
  | .goal j _ => .goal j
  | .var v _ | .times v _ _ _ => .var v

namespace Sends

variable {c : Circuit} {x y : String} {body : List Goal} {q : Request} {m : String}
  {ops : List Operation}

theorem stands (h : Passes c (.goal g v) m ops ns) : c.Stands v g := by
  cases h with
  | outside hno => exact absurd trivial hno
  | head hv => exact hv
  | assigned hv | forward hv | call hv => exact .inr hv
  | row hv | preimage hv | backward hv => exact .inl hv

/-- A message that starts outside of sealed nodes stays outside. -/
theorem avoids (h : Passes c q m ops ns) {L : List Node} (hL : c.Sealed L) (hq : q.start ∉ L) :
    ∀ z ∈ ns, z ∉ L := by
  induction h with
  | outside hno => exact absurd trivial hno
  | head | assigned | row => simpa [Request.start] using hq
  | @forward j v u mode m ops ns hv hin hu hm hd ha hs ih
  | @call j _ u _ _ _ _ _ hin _ _ _ _ _ ih =>
    have hu' : .var u ∉ L := by
      rwa [hL u (j + 1) (.inl (by simp [hin]))]
    simpa [hu'] using ⟨hq, ih hu'⟩
  | @preimage j _ u _ _ _ hout _ _ _ _ =>
    have hu' : .var u ∉ L := by
      rwa [hL u (j + 1) (.inr (by simp [hout]))]
    simpa [hu', Request.start] using hq
  | @backward j _ u _ _ _ _ _ _ hout _ _ _ _ ih =>
    have hu' : .var u ∉ L := by
      rwa [hL u (j + 1) (.inr (by simp [hout]))]
    simpa [hu'] using ⟨hq, ih hu'⟩
  | @ask v _ g _ _ _ _ _ _ _ _ _ hs _ ih ih' =>
    have hg : .goal g ∉ L := by
      rwa [← hL v g hs.stands]
    simpa [or_imp, forall_and] using ⟨ih hg, ih' hq⟩
  | done => simp
  | @factor v _ _ g _ _ _ _ _ _ _ hs _ ih ih' =>
    have hg : .goal g ∉ L := by
      rwa [← hL v g hs.stands]
    simpa [or_imp, forall_and] using ⟨ih hg, ih' hq⟩

theorem disjoint (h : Passes c (.var v j) m ops ns) {L : List Node} (hL : c.Sealed L)
    (hv : .var v ∉ L) : L.Disjoint (.var v :: ns) := by
  intro z hz hz'
  rcases mem_cons.1 hz' with rfl | hz'
  · exact hv hz
  · exact h.avoids hL hv z hz' hz

/-- A variable that asks all its goals visits sealed nodes. -/
theorem sealed (hc : c.Describes x y body) (hone : c.Assigns) (h : Passes c (.var v j) m ops ns)
    (hj : ¬c.Stands v j) : c.Sealed (.var v :: ns) := by
  have hvis := h.visits hc
  intro u g hs
  simp only [mem_cons, Node.var.injEq, reduceCtorEq, false_or]
  constructor
  · rintro (rfl | hu)
    · refine hvis.asked g (Circuit.mem_neighbours.2 ⟨(hc.stands_iff.1 hs).imp_right And.left, ?_⟩)
      rintro rfl
      exact hj hs
    · exact hvis.closed u g hu hs
  · exact fun hg => (h.bounded hc hone u g hg hs).symm

/-- A variable of the body that asks all its goals visits a region. -/
theorem region (hc : c.Describes x y body) (hone : c.Assigns) (h : Passes c (.var v j) m ops ns)
    (hj : ¬c.Stands v j) (hv : ∃ i, c.Stands v (i + 1)) :
    c.Region (.var v :: ns) where
  sealed := h.sealed hc hone hj
  nodup := nodup_cons.2 ⟨h.name_notMem hc trivial, (h.located hc trivial).1⟩
  var u hu := by
    rcases mem_cons.1 hu with hu | hu
    · exact (Node.var.inj hu) ▸ hv
    · exact (h.visits hc).var u hu
  goal g hg := (h.visits hc).goal g (by simpa using hg)

theorem exists_stands (h : Passes c (.var v j) m ops ns) :
    ∃ g, c.Stands v g := by
  cases h with
  | outside hno => exact absurd trivial hno
  | ask _ _ hs _ => exact ⟨_, hs.stands⟩

end Sends

end BeliefLogic
