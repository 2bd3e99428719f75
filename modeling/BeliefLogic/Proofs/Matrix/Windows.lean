import BeliefLogic.Proofs.Matrix.Broadcast

/-!
# Dense copies lose nothing

A dense copy leaves out only columns in which nothing is stored.
-/

namespace BeliefLogic

open List

/-- Two dense copies combined, where a single row is repeated. -/
def Dense.combine {α : Type} (f : α → α → α) (d e : Dense α) : Dense α :=
  ⟨d.width, (Matrix.paired d.rows e.rows).map fun p => List.zipWith f p.1 p.2⟩

namespace Matrix

variable {α : Type} [ExactScalar α] {m n : Matrix α} {h h' lo hi w : ℕ}

theorem Shaped.toMatrix_denseRows (hm : m.Shaped h w) (hw : m.Within lo hi) (hle : lo ≤ hi)
    (hlt : hi < w) : ((m.denseRows lo hi).toMatrix ⟨lo, w⟩).Shaped h w ∧
      ∀ i k, ((m.denseRows lo hi).toMatrix ⟨lo, w⟩).entry i k = m.entry i k := by
  obtain ⟨hs, he⟩ := toMatrix_windows _ h hlt hw.vanishes hle (hm.denseRows_eq hw)
  refine ⟨hs, fun i k => ?_⟩
  by_cases hi : i < h
  · exact he i hi k
  · rw [hs.entry_of_height_le (not_lt.1 hi), hm.entry_of_height_le (not_lt.1 hi)]

/-- A dense copy reads back as its matrix. Two that are made together have the same width, and
combined place by place they read back as the combination, if nothing comes from nothing. -/
theorem Shaped.dense_lossless (hm : m.Shaped h w) (hn : n.Shaped h' w) (limit : DenseLimit α) :
    (∀ d v, m.denseCopy limit = .ok (.made d v) →
      (d.toMatrix v).Shaped h w ∧ ∀ i k, (d.toMatrix v).entry i k = m.entry i k) ∧
    ∀ d e v, m.denseCopies limit n = .ok (.made (d, e) v) →
      ((d.toMatrix v).Shaped h w ∧ ∀ i k, (d.toMatrix v).entry i k = m.entry i k) ∧
      ((e.toMatrix v).Shaped h' w ∧ ∀ i k, (e.toMatrix v).entry i k = n.entry i k) ∧
      d.width = e.width ∧
      ∀ f : α → α → α, f 0 0 = 0 → h = h' ∨ h = 1 ∨ h' = 1 →
        ((d.combine f e).toMatrix v).Shaped (max h h') w ∧ ∀ i < max h h', ∀ k,
          ((d.combine f e).toMatrix v).entry i k = f (m.spread i k) (n.spread i k) := by
  constructor
  · intro d v hc
    rcases denseCopy_cases hm limit with ⟨he, -⟩ | ⟨he, -⟩ | ⟨_, _, he⟩ | ⟨lo, hi, he, hle, hlt, hw⟩
    · cases he.symm.trans hc
    · cases he.symm.trans hc
    · cases he.symm.trans hc
    · cases he.symm.trans hc
      exact hm.toMatrix_denseRows hw hle hlt
  · intro d e v hc
    rcases denseCopies_cases hm hn limit with
      ⟨he, -⟩ | ⟨c, he, hne⟩ | ⟨lo, hi, he, hle, hlt, hmw, hnw, hpos⟩
    · cases he.symm.trans hc
    · cases he.symm.trans hc
      exact absurd rfl (hne _ _)
    · cases he.symm.trans hc
      refine ⟨hm.toMatrix_denseRows hmw hle hlt, hn.toMatrix_denseRows hnw hle hlt, rfl,
        fun f hf hh => ?_⟩
      have hvan (i : ℕ) : Vanishes lo hi fun k => f (m.spread i k) (n.spread i k) :=
        fun k hk => by simp [spread, hmw.vanishes _ k hk, hnw.vanishes _ k hk, hf]
      exact hm.toMatrix_paired hn hmw hnw hle hlt hpos hh _ hvan
        (fun i => zipWith_windowOf f lo hi _ _) rfl

/-- A copy from the third column on is read back, and two are added up. -/
theorem dense_lossless_shifted : ∃ m n : Matrix ℚ, ∃ d v d' e' v',
    m.denseCopy (.whole 3 10) = .ok (.made d v) ∧ v.first = 2 ∧
      (d.toMatrix v).Shaped 2 6 ∧ (∀ i k, (d.toMatrix v).entry i k = m.entry i k) ∧
      m.denseCopies (.whole 3 10) n = .ok (.made (d', e') v') ∧
      (∀ i k, (e'.toMatrix v').entry i k = n.entry i k) ∧
      ((d'.combine (· + ·) e').toMatrix v').entry 1 3 = 7 := by
  have hm : (⟨6, #[[(2, 5)], [(4, 3)]]⟩ : Matrix ℚ).Shaped 2 6 := by decide
  have hn : (⟨6, #[[(3, 7)]]⟩ : Matrix ℚ).Shaped 1 6 := by decide
  obtain ⟨hcopy, hcopies⟩ := hm.dense_lossless hn (.whole 3 10)
  refine ⟨⟨6, #[[(2, 5)], [(4, 3)]]⟩, ⟨6, #[[(3, 7)]]⟩, _, _, _, _, _, rfl, rfl, (hcopy _ _ rfl).1,
    (hcopy _ _ rfl).2, rfl, ?_⟩
  obtain ⟨-, ⟨-, hread⟩, -, hcombine⟩ := hcopies _ _ _ rfl
  refine ⟨hread, ((hcombine (· + ·) (by simp) (by decide)).2 1 (by decide) 3).trans ?_⟩
  decide +kernel

end Matrix

end BeliefLogic
