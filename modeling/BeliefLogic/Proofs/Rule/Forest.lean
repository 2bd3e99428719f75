import Mathlib

/-!
# Sides of edges in a forest

The sides behind different edges of a forest are disjoint, so a search that never turns back visits
no node twice.
-/

namespace BeliefLogic

/-- A forest: every node has at most one parent, which ranks lower. -/
structure Forest (N : Type) where
  parent : N → Option N
  rank : N → ℕ
  rank_lt : ∀ {a b}, parent a = some b → rank b < rank a

namespace Forest

variable {N : Type} (F : Forest N) {a b c d z : N}

/-- A node is another one, or one of its descendants. -/
def Below (a z : N) : Prop := Relation.ReflTransGen (fun u v => F.parent u = some v) z a

/-- One of two nodes is the parent of the other. -/
def Adjacent (a b : N) : Prop := F.parent a = some b ∨ F.parent b = some a

/-- A node is on the side of the first end of an edge. -/
def Beyond (a b z : N) : Prop :=
  (F.parent a = some b → F.Below a z) ∧ (F.parent b = some a → ¬F.Below b z)

variable {F}

theorem Below.trans_parent (h : F.Below a z) (hp : F.parent a = some b) : F.Below b z :=
  Relation.ReflTransGen.tail h hp

theorem Below.rank_le (h : F.Below a z) : F.rank a ≤ F.rank z := by
  induction h with
  | refl => exact le_rfl
  | tail _ hp ih => exact (F.rank_lt hp).le.trans ih

theorem Below.total (ha : F.Below a z) (hb : F.Below b z) : F.Below a b ∨ F.Below b a := by
  have := Relation.ReflTransGen.total_of_right_unique
    (fun u v w (h : F.parent u = some v) (h' : F.parent u = some w) =>
      Option.mem_unique h h') ha hb
  exact this.symm

theorem Below.eq_of_parent (h : F.Below a b) (hp : F.parent b = some c)
    (hrank : F.rank c < F.rank a) : a = b := by
  rcases Relation.ReflTransGen.cases_head h with h | ⟨c', hc', h⟩
  · exact h.symm
  · obtain rfl := Option.mem_unique hc' hp
    exact absurd (Below.rank_le h) (not_le_of_gt hrank)

theorem Below.disjoint (ha : F.parent a = some c) (hb : F.parent b = some c) (hne : a ≠ b)
    (h : F.Below a z) (h' : F.Below b z) : False := by
  rcases h.total h' with h | h
  · exact hne (h.eq_of_parent hb (F.rank_lt ha))
  · exact hne (h.eq_of_parent ha (F.rank_lt hb)).symm

theorem not_below_of_parent (h : F.parent a = some b) : ¬F.Below a b := fun hb =>
  (F.rank_lt h).not_ge hb.rank_le

theorem Adjacent.symm (h : F.Adjacent a b) : F.Adjacent b a := Or.symm h

theorem Adjacent.beyond_left (h : F.Adjacent a b) : F.Beyond a b a := by
  rcases h with h | h
  · exact ⟨fun _ => .refl, fun h' => absurd (F.rank_lt h) (F.rank_lt h').le.not_gt⟩
  · exact ⟨fun _ => .refl, fun _ => not_below_of_parent h⟩

theorem Adjacent.not_beyond_right (h : F.Adjacent a b) : ¬F.Beyond a b b := by
  rintro ⟨h1, h2⟩
  rcases h with h | h
  · exact not_below_of_parent h (h1 h)
  · exact h2 h .refl

/-- The side of an edge holds the sides of the edges behind it. -/
theorem Beyond.behind (hca : F.Adjacent c a) (hne : c ≠ b)
    (h : F.Beyond c a z) : F.Beyond a b z := by
  refine ⟨fun hp => ?_, fun hp hz => ?_⟩
  · rcases hca with hca | hca
    · exact (h.1 hca).trans_parent hca
    · exact absurd (Option.mem_unique hca hp) hne
  · rcases hca with hca | hca
    · exact (h.1 hca).disjoint hca hp hne hz
    · exact h.2 hca (hz.trans_parent hp)

/-- The sides of different edges behind a node are disjoint. -/
theorem Beyond.disjoint (hca : F.Adjacent c a) (hda : F.Adjacent d a) (hne : c ≠ d)
    (h : F.Beyond c a z) (h' : F.Beyond d a z) : False := by
  rcases hca with hca | hca <;> rcases hda with hda | hda
  · exact (h.1 hca).disjoint hca hda hne (h'.1 hda)
  · exact h'.2 hda ((h.1 hca).trans_parent hca)
  · exact h.2 hca ((h'.1 hda).trans_parent hda)
  · exact hne (Option.mem_unique hca hda)

end Forest

end BeliefLogic
