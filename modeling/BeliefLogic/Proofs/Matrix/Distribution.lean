import BeliefLogic.Proofs.Matrix.Softmax
import BeliefLogic.Proofs.Plan.Success

/-!
# Softmax as a distribution

Over the reals softmax gives a distribution over the null entity and the columns with a score.
-/

namespace BeliefLogic

open Outcome Run

variable {w k : ℕ}

namespace Matrix

variable {α : Type} [ExactExponential α]
variable {f : ℕ → α}

theorem mass_nonneg (x : α) : 0 ≤ mass x := by
  unfold mass
  split
  · exact le_rfl
  · exact (ExactExponential.exp_pos x).le

theorem mass_eq_zero_iff {x : α} : mass x = 0 ↔ x = 0 := by
  refine ⟨fun h => ?_, fun h => by rw [h, mass_zero]⟩
  by_contra hx
  exact (ExactExponential.exp_pos x).ne' (mass_of_ne_zero hx ▸ h)

theorem sum_mass_pos (hk : k < w) (hf : f k ≠ 0) :
    0 < ∑ j ∈ Finset.range w, mass (f j) := by
  refine Finset.sum_pos' (fun j _ => mass_nonneg (f j)) ⟨k, Finset.mem_range.2 hk, ?_⟩
  exact (mass_nonneg _).lt_of_ne' fun h => hf (mass_eq_zero_iff.1 h)

/-- Shares are those of a distribution over the columns with a score. -/
theorem softmaxOf_distribution (hk : k < w) (hf : f k ≠ 0) :
    (∀ j, 0 ≤ softmaxOf w f j) ∧ ∑ j ∈ Finset.range w, softmaxOf w f j = 1 ∧
      (∀ j, softmaxOf w f j ≠ 0 ↔ f j ≠ 0) ∧
      ∃ c, 0 < c ∧ ∀ j, f j ≠ 0 → softmaxOf w f j = c * ExactScalar.exp (f j) := by
  have hpos := sum_mass_pos hk hf
  refine ⟨fun j => div_nonneg (mass_nonneg _) hpos.le, ?_, fun j => ?_, _, inv_pos.2 hpos,
    fun j hj => ?_⟩
  · simp only [softmaxOf]
    rw [← Finset.sum_div, div_self hpos.ne']
  · rw [softmaxOf, ne_eq, div_eq_zero_iff, not_or, mass_eq_zero_iff]
    exact and_iff_left hpos.ne'
  · rw [softmaxOf, mass_of_ne_zero hj, div_eq_inv_mul]

end Matrix

theorem Run.ends_softmax {α σ : Type} [Scalar α] {s : Settings α} {m q p : Matrix α}
    (hq : m.withNull = .ok q) (hp : q.normalized s.denseLimit = .ok p) :
    Ends s (Run.softmax m : Run α σ _) p :=
  ends_settings.bind ((ends_lift hq).bind (ends_reportCopy.bind (ends_lift hp)))

namespace Matrix

/-- A matrix has a distribution in each row, over the null entity and the columns with scores, in
proportion to the exponentials of the scores. That of the null entity is lowered by ten. -/
structure IsSoftmaxOf (p m : Matrix ℝ) (h w : ℕ) : Prop where
  shaped : p.Shaped h w
  nonneg : ∀ i < h, ∀ j, 0 ≤ p.entry i j
  sum_one : ∀ i < h, ∑ j ∈ Finset.range w, p.entry i j = 1
  support : ∀ i < h, ∀ j, p.entry i j ≠ 0 ↔ j = 1 ∨ m.entry i j ≠ 0
  proportional : ∀ i < h, ∃ c, 0 < c ∧ ∀ j, j = 1 ∨ m.entry i j ≠ 0 →
    p.entry i j = c * Real.exp (m.entry i j - if j = 1 then 10 else 0)

theorem scores_real (m : Matrix ℝ) (i j : ℕ) :
    m.scores i j = m.entry i j - if j = 1 then 10 else 0 := by
  have hten : (nullScore : ℝ) = -10 := by
    change (-1 : ℝ) * (((10 : ℕ) : ℝ) * 10 ^ (0 : ℤ)) = -10
    norm_num
  rw [scores, hten]
  split <;> ring

/-- The softmax of a matrix exists, is a distribution in each row, and is the same under all
settings. -/
theorem Shaped.softmax_distribution {m : Matrix ℝ} {h w : ℕ} (hm : m.Shaped h w) (hh : 0 < h)
    (hw : 2 ≤ w) (hnull : ∀ i < h, m.entry i 1 ≠ 10) {σ : Type} :
    ∃ f : ℕ → ℕ → ℝ, ∀ s : Settings ℝ, s.denseLimit ≠ .undefined →
      ∃ p, Ends s (Run.softmax m : Run ℝ σ _) p ∧ p.IsSoftmaxOf m h w ∧
        ∀ i < h, ∀ j, p.entry i j = f i j := by
  refine ⟨fun i => softmaxOf w (m.scores i), fun s hs => ?_⟩
  have hscore (i : ℕ) (hi : i < h) : m.scores i 1 ≠ 0 := by
    rw [scores_real, if_pos rfl, sub_ne_zero]
    exact hnull i hi
  obtain ⟨q, p, hq, hp, hps, hpe⟩ := hm.softmax hh hw (fun i hi => ⟨1, hscore i hi⟩) hs
  have hsupport (i : ℕ) (hi : i < h) (j : ℕ) : m.scores i j ≠ 0 ↔ j = 1 ∨ m.entry i j ≠ 0 := by
    by_cases hj : j = 1
    · subst hj
      simp [hscore i hi]
    · simp [scores_real, hj]
  have hrow (i : ℕ) (hi : i < h) := softmaxOf_distribution hw (hscore i hi)
  refine ⟨p, ends_softmax hq hp, ⟨hps, fun i hi j => ?_, fun i hi => ?_, fun i hi j => ?_,
    fun i hi => ?_⟩, hpe⟩
  · exact hpe i hi j ▸ (hrow i hi).1 j
  · exact (Finset.sum_congr rfl fun j _ => hpe i hi j).trans (hrow i hi).2.1
  · rw [hpe i hi, (hrow i hi).2.2.1, hsupport i hi]
  · obtain ⟨c, hc, hshare⟩ := (hrow i hi).2.2.2
    refine ⟨c, hc, fun j hj => ?_⟩
    rw [hpe i hi, hshare j ((hsupport i hi j).2 hj), scores_real]
    rfl

/-- Two rows of scores, of which the second has none. -/
def someScores : Matrix ℝ := ⟨4, #[[(3, 2), (1, -1)], []]⟩

/-- A copy that is made and one that is too large give the same shares. -/
theorem softmax_distribution_someScores :
    ∃ p p', Ends (.standard ℝ) (Run.softmax someScores : Run ℝ Unit _) p ∧
      Ends { denseFactor := .integer 0, denseIntercept := .integer 0 }
        (Run.softmax someScores : Run ℝ Unit _) p' ∧
      p.IsSoftmaxOf someScores 2 4 ∧ ∀ i < 2, ∀ j, p.entry i j = p'.entry i j := by
  have hm : someScores.Shaped 2 4 := by decide
  obtain ⟨f, hf⟩ := hm.softmax_distribution (by decide) (by decide) (σ := Unit) fun i hi => by
    rw [entry_eq]
    interval_cases i <;> norm_num [someScores, row]
  obtain ⟨p, hp, hsoft, hpe⟩ := hf (.standard ℝ) fun h => by
    cases (h : DenseLimit.whole 3 10000 = .undefined)
  obtain ⟨p', hp', -, hpe'⟩ := hf { denseFactor := .integer 0, denseIntercept := .integer 0 }
    fun h => by cases (h : DenseLimit.whole 0 0 = .undefined)
  exact ⟨p, p', hp, hp', hsoft, fun i hi j => (hpe i hi j).trans (hpe' i hi j).symm⟩

end Matrix

end BeliefLogic
