import BeliefLogic.Proofs.Matrix.Broadcast
import BeliefLogic.Proofs.Plan.Equations

/-!
# The way back through a weighting

The change that comes back to the weights is multiplied by them once more, so it is the adjoint only
where nothing comes back or every weight is one.
-/

namespace BeliefLogic

open Outcome Finset

variable {α : Type}

namespace Bindings

variable {b : Bindings α} {x y : String} {m : Matrix α}

@[simp] theorem delta_setDelta_self : (b.setDelta x m).delta x = .ok m := by
  simp [delta, setDelta]

theorem delta_setDelta_of_ne (h : y ≠ x) : (b.setDelta x m).delta y = b.delta y := by
  simp [delta, setDelta, h.symm]

@[simp] theorem value_setDelta : (b.setDelta x m).value y = b.value y := rfl

end Bindings

variable [ExactScalar α]

namespace Matrix

/-- A row weighted by the sum of another row, perhaps of another width. -/
theorem Shaped.weighted_row {m n : Matrix α} {w w' : ℕ} (hm : m.Shaped 1 w) (hn : n.Shaped 1 w')
    {dense : Bool} {limit : DenseLimit α} (hd : dense = true → w' = w ∧ limit ≠ .undefined) :
    ∃ p, m.weighted dense limit n = .ok p ∧ p.Shaped 1 w ∧
      ∀ k, p.entry 0 k = m.entry 0 k * ∑ j ∈ range w', n.entry 0 j := by
  cases dense with
  | false =>
    obtain ⟨p, hp, hps, hpe⟩ := hm.scale (∑ i ∈ range 1, ∑ j ∈ range w', n.entry i j)
    refine ⟨p, ?_, hps, fun k => by rw [hpe, sum_range_one]⟩
    rw [Matrix.weighted, Matrix.weightByRowSum, if_pos hn.height_eq]
    exact then_ok.2 ⟨_, hn.total, hp⟩
  | true =>
    obtain ⟨rfl, hlimit⟩ := hd rfl
    rcases hm.weighted hn (.inl rfl) ⟨one_pos, one_pos⟩ true limit with ⟨-, hu, -⟩ | ⟨p, hp, hps, hpe⟩
    · exact absurd hu hlimit
    · refine ⟨p, hp, hps, fun k => ?_⟩
      rw [hpe 0 (by simp) k, hm.spread_single]
      simp [hn.spread_single]

theorem Shaped.broadcastMultiply_row {m n : Matrix α} {w : ℕ} (hm : m.Shaped 1 w)
    (hn : n.Shaped 1 w) (limit : DenseLimit α) :
    ∃ p, m.broadcastMultiply limit n = .ok p ∧ p.Shaped 1 w ∧
      ∀ k, p.entry 0 k = m.entry 0 k * n.entry 0 k := by
  rcases hm.broadcastMultiply hn (.inl rfl) limit with ⟨hne, -⟩ | ⟨p, hp, hps, hpe⟩
  · exact absurd rfl hne
  · exact ⟨p, hp, hps, fun k => by rw [hpe, hn.spread_single]⟩

end Matrix

/-- Sums agree for all changes exactly if weights are one or nothing is weighed. -/
theorem forall_sum_mul_eq_iff {n : ℕ} (f : ℕ → α) (c : α) :
    (∀ u : ℕ → α, c * ∑ k ∈ range n, u k = ∑ k ∈ range n, f k * c * u k) ↔
      c = 0 ∨ ∀ k < n, f k = 1 := by
  constructor
  · intro h
    by_cases hc : c = 0
    · exact .inl hc
    · refine .inr fun k hk => ?_
      have hu := h fun j => if j = k then 1 else 0
      simp only [mul_ite, mul_one, mul_zero, sum_ite_eq', mem_range, hk] at hu
      exact (mul_eq_right₀ hc).1 hu.symm
  · rintro (rfl | hf) u
    · simp
    · rw [mul_sum]
      refine sum_congr rfl fun k hk => ?_
      rw [hf k (mem_range.1 hk), one_mul]

/-- A row is weighted and its change goes back: to the row comes the adjoint of the weighting, and
to the weights it comes exactly if the change is orthogonal to the row or every weight is one. -/
theorem Action.back_weighted_adjoint {s : Settings α} {db : Database α} {b : Bindings α}
    {target weight row : String} (htarget : target ≠ weight ∧ target ≠ row) (hrow : weight ≠ row)
    {v c d : Matrix α} {w w' : ℕ} (hv : b.value row = .ok v) (hc : b.value weight = .ok c)
    (hvs : v.Shaped 1 w) (hcs : c.Shaped 1 w') (hds : d.Shaped 1 w)
    (hdense : s.denseWeighting = true → w' = w ∧ s.denseLimit ≠ .undefined)
    (type : Option String) :
    ∃ r b' dv dc, (Action.weighted weight row).eval s db b type = .ok r ∧
      (∀ k, r.entry 0 k = v.entry 0 k * ∑ j ∈ range w', c.entry 0 j) ∧
      (Action.weighted weight row).back s db target ((b.bind target r).setDelta target d) = .ok b' ∧
      b'.delta row = .ok dv ∧ b'.delta weight = .ok dc ∧ dv.Shaped 1 w ∧ dc.Shaped 1 w' ∧
      (∀ u : ℕ → α, ∑ j ∈ range w, d.entry 0 j * u j * ∑ k ∈ range w', c.entry 0 k =
        ∑ j ∈ range w, dv.entry 0 j * u j) ∧
      ((∀ u : ℕ → α, ∑ j ∈ range w, d.entry 0 j * v.entry 0 j * ∑ k ∈ range w', u k =
          ∑ k ∈ range w', dc.entry 0 k * u k) ↔
        ∑ j ∈ range w, d.entry 0 j * v.entry 0 j = 0 ∨ ∀ k < w', c.entry 0 k = 1) := by
  obtain ⟨r, hr, -, hre⟩ := hvs.weighted_row hcs hdense
  obtain ⟨dv, hdv, hdvs, hdve⟩ := hds.weighted_row hcs hdense
  obtain ⟨x, hx, hxs, hxe⟩ := hds.broadcastMultiply_row hvs s.denseLimit
  obtain ⟨dc, hdc, hdcs, hdce⟩ := hcs.weighted_row hxs fun h => ⟨(hdense h).1.symm, (hdense h).2⟩
  refine ⟨r, ((((b.bind target r).setDelta target d).setDelta row dv).setDelta weight dc), dv, dc,
    ?_, hre, ?_, ?_, Bindings.delta_setDelta_self, hdvs, hdcs, fun u => ?_, ?_⟩
  · exact then_ok.2 ⟨v, hv, then_ok.2 ⟨c, hc, hr⟩⟩
  · have hc' : (b.bind target r).value weight = .ok c := by
      rw [Bindings.value_bind, if_neg htarget.1, hc]
    have hv' : (b.bind target r).value row = .ok v := by
      rw [Bindings.value_bind, if_neg htarget.2, hv]
    simp [Action.back, hc', hv', Bindings.delta_setDelta_of_ne htarget.2, hdv,
      hx, hdc]
  · rw [Bindings.delta_setDelta_of_ne hrow.symm, Bindings.delta_setDelta_self]
  · refine sum_congr rfl fun j _ => ?_
    rw [hdve]
    ring
  · rw [← forall_sum_mul_eq_iff (fun k => c.entry 0 k)]
    simp [hdce, hxe, ← sum_mul]

/-- Weights two and one for the row of a one and a two. -/
def someBindings : Bindings ℚ :=
  (Bindings.bind {} "w" ⟨2, #[[(0, 2), (1, 1)]]⟩).bind "v" ⟨2, #[[(0, 1), (1, 2)]]⟩

/-- What comes back to weights that are not all one is not the adjoint. -/
theorem back_weighted_adjoint_someBindings : ∃ r b' dc,
    (Action.weighted "w" "v").eval (.standard ℚ) default someBindings none = .ok r ∧
    (Action.weighted "w" "v").back (.standard ℚ) default "y"
      ((someBindings.bind "y" r).setDelta "y" ⟨2, #[[(0, 1), (1, 1)]]⟩) = .ok b' ∧
    b'.delta "w" = .ok dc ∧ ¬∀ u : ℕ → ℚ, ∑ j ∈ range 2, (1 : ℚ) * (j + 1) * ∑ k ∈ range 2, u k =
      ∑ k ∈ range 2, dc.entry 0 k * u k := by
  obtain ⟨r, b', dv, dc, hr, -, hb, -, hdc, -, -, -, hiff⟩ :=
    @Action.back_weighted_adjoint ℚ _ (.standard ℚ) default someBindings "y" "w" "v" (by decide)
      (by decide) ⟨2, #[[(0, 1), (1, 2)]]⟩ ⟨2, #[[(0, 2), (1, 1)]]⟩ ⟨2, #[[(0, 1), (1, 1)]]⟩ 2 2
      rfl rfl (by decide) (by decide) (by decide) (fun h => by cases h) none
  refine ⟨r, b', dc, hr, hb, hdc, fun hall => ?_⟩
  have hcases := hiff.1 fun u => by
    rw [← hall u]
    norm_num [sum_range_succ, Matrix.entry_eq, Matrix.row]
  rcases hcases with hzero | hone
  · norm_num [sum_range_succ, Matrix.entry_eq, Matrix.row] at hzero
  · norm_num [Matrix.entry_eq, Matrix.row] at hone
    exact absurd (hone 0 zero_le_one) (by norm_num)

end BeliefLogic
