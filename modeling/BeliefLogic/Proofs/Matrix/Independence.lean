import BeliefLogic.Proofs.Endings
import BeliefLogic.Proofs.Matrix.Broadcast
import BeliefLogic.Proofs.Plan.Success

/-!
# Products and weights under all settings

Weighted rows do not depend on settings. Elementwise products do only where a single row stands on
the left of several: without dense copies that is refused.
-/

namespace BeliefLogic

open Outcome Run List

namespace Run

variable {α σ β γ : Type} {s : Settings α}

/-- Under some settings a run fails, whatever its state is. -/
def Fails (s : Settings α) (act : Run α σ β) (e : Error) : Prop :=
  ∀ t : World α × σ, t.1.settings = s → ∃ u, act t = .error e u

theorem fails_lift {x : Except Error β} {e : Error} (h : x = .error e) :
    Fails s (lift x : Run α σ β) e := by
  intro t _
  subst h
  exact ⟨t, rfl⟩

theorem Ends.bind_fails {act : Run α σ β} {f : β → Run α σ γ} {b : β} {e : Error}
    (h : Ends s act b) (hf : Fails s (f b) e) : Fails s (act >>= f) e := by
  intro t ht
  obtain ⟨u, hu, hs⟩ := h t ht
  obtain ⟨v, hv⟩ := hf u hs
  exact ⟨v, (bind_of_ok hu).trans hv⟩

theorem leaves_reportCopy (copy : Except Error (DenseCopy γ)) :
    Leaves Eq (reportCopy copy : Run α σ Unit) := by
  unfold reportCopy
  split
  · refine Leaves.bind (fun _ => rfl) fun c => ?_
    split
    · exact fun _ => rfl
    · exact leaves_pure
  · exact leaves_pure

end Run

namespace Matrix

variable {α : Type} [ExactScalar α] {m n : Matrix α} {h' w : ℕ} {limit : DenseLimit α}

/-- Dense copies of two matrices are within the limit. -/
def Copied (limit : DenseLimit α) (m n : Matrix α) : Prop :=
  ∃ c w, m.denseCopies limit n = .ok (.made c w)

theorem denseCopies_swap {d e : Dense α} {v : Window}
    (hc : m.denseCopies limit n = .ok (.made (d, e) v)) :
    n.denseCopies limit m = .ok (.made (e, d) v) := by
  unfold denseCopies at hc ⊢
  split at hc
  · cases hc
  · next hw =>
    have hw : m.width = n.width := not_not.1 hw
    rw [if_neg (not_not.2 hw.symm)]
    split at hc
    · next lo1 lo2 hi1 hi2 hlo1 hlo2 hhi1 hhi2 =>
      rw [hlo1, hlo2, hhi1, hhi2]
      dsimp only at hc ⊢
      rw [min_comm lo2, max_comm hi2, add_comm (n.denseSize _ _), add_comm n.sparseSize, ← hw]
      obtain ⟨b, hb, hc⟩ := then_ok.1 hc
      cases b with
      | false => cases hc
      | true =>
        cases hc
        exact then_ok.2 ⟨true, hb, rfl⟩
    · cases hc

theorem multiply_swap {d e : Dense α} (hd : d.rows ≠ []) (he : e.rows ≠ []) (hw : d.width = e.width)
    (hone : d.rows.length = 1) : d.multiply e = e.multiply d := by
  rw [multiply_ok hd he (.inr (.inl hone)), multiply_ok he hd (.inr (.inr hone)), hw, paired, paired,
    max_comm, map_map, map_map]
  exact congrArg (fun rows => Except.ok (Dense.mk e.width rows))
    (map_congr_left fun i _ => zipWith_comm_of_comm mul_comm)

/-- With dense copies, a single row may stand on either side. -/
theorem Shaped.multiplyRow_swap (hm : m.Shaped 1 w) (hn : n.Shaped h' w) (hc : m.Copied limit n) :
    m.multiplyRow limit n = n.multiplyRow limit m := by
  obtain ⟨c, v, hc⟩ := hc
  rcases denseCopies_cases hm hn limit with
    ⟨he, -⟩ | ⟨c', hok, hne⟩ | ⟨lo, hi, hmade, -, -, -, -, hpos⟩
  · cases he.symm.trans hc
  · cases hok.symm.trans hc
    exact absurd rfl (hne c v)
  · have hswap := multiply_swap (hm.denseRows_ne_nil lo hi hpos.1) (hn.denseRows_ne_nil lo hi hpos.2)
      rfl (hm.length_denseRows lo hi)
    rw [Matrix.multiplyRow, Matrix.multiplyRow, hmade, denseCopies_swap hmade]
    simp [hswap]

/-- Without dense copies, several rows would have to be repeated. -/
theorem Shaped.multiplyRow_several (hm : m.Shaped 1 w) (hn : n.Shaped h' w) (hh : h' ≠ 1)
    (hlimit : limit ≠ .undefined) (hc : ¬m.Copied limit n) :
    m.multiplyRow limit n = .error (.refused .repeatedRows) := by
  have hrepeat (k : ℤ) : n.replicate k = .error (.refused .repeatedRows) :=
    if_pos (hn.height_eq ▸ hh)
  unfold Matrix.multiplyRow
  rcases denseCopies_cases hm hn limit with ⟨-, hu⟩ | ⟨c, hok, hne⟩ | ⟨lo, hi, hmade, -⟩
  · exact absurd hu hlimit
  · rw [hok]
    cases c with
    | made x v => exact absurd rfl (hne x v)
    | tooLarge a b => simp [hrepeat]
    | nothingStored => simp [hrepeat]
  · exact absurd ⟨_, _, hmade⟩ hc

end Matrix

variable {α σ : Type} [ExactScalar α] {s : Settings α} {m n : Matrix α} {h h' w : ℕ}

theorem Run.ends_broadcastMultiply {p : Matrix α}
    (hp : m.broadcastMultiply s.denseLimit n = .ok p) :
    Ends s (Run.broadcastMultiply m n : Run α σ _) p := by
  obtain ⟨b, hb, hp⟩ := then_ok.1 hp
  refine (ends_lift hb).bind ?_
  cases b with
  | false => exact ends_lift hp
  | true => exact ends_settings.bind (ends_reportCopy.bind (ends_lift hp))

namespace Matrix

open Classical in
/-- The elementwise product, where a single row may stand for all rows, exists under all settings.
Only a single row left of several is refused, unless dense copies of the two are within the limit.
-/
theorem Shaped.broadcastMultiply_settings (hm : m.Shaped h w) (hn : n.Shaped h' w)
    (hpos : 0 < h ∧ 0 < h') (hh : h = h' ∨ h = 1 ∨ h' = 1) (hs : s.denseLimit ≠ .undefined) :
    if h = 1 ∧ 1 < h' ∧ ¬m.Copied s.denseLimit n then
      Fails s (Run.broadcastMultiply m n : Run α σ _) (.refused .repeatedRows)
    else ∃ p, Ends s (Run.broadcastMultiply m n : Run α σ _) p ∧ p.Shaped (max h h') w ∧
      ∀ i < max h h', ∀ k, p.entry i k = m.spread i k * n.spread i k := by
  by_cases hright : h' = h ∨ h' = 1
  · rw [if_neg (by omega)]
    have hmax : max h h' = h := by omega
    obtain ⟨-, hu, -⟩ | ⟨p, hp, hps, hpe⟩ := hm.broadcastMultiply hn hright s.denseLimit
    · exact absurd hu hs
    · refine ⟨p, ends_broadcastMultiply hp, hmax.symm ▸ hps, fun i hi k => ?_⟩
      have hi0 : (if h = 1 then 0 else i) = i := by split <;> omega
      rw [hpe, spread, spread, hm.height_eq, hi0]
  · obtain rfl : h = 1 := by omega
    have hone : h' ≠ 1 := by omega
    have hneed : m.needBroadcast n = .ok true := by
      simp [needBroadcast, hm.height_eq, hn.height_eq, Ne.symm hone]
    split
    · next hc =>
      have hfails := hm.multiplyRow_several hn hone hs hc.2.2
      exact (ends_lift hneed).bind_fails
        (ends_settings.bind_fails (ends_reportCopy.bind_fails (fails_lift hfails)))
    · next hc =>
      have hc : m.Copied s.denseLimit n := by
        by_contra hcon
        exact hc ⟨rfl, by omega, hcon⟩
      have hmax : max 1 h' = h' := by omega
      obtain ⟨hu, -⟩ | ⟨p, hp, hps, hpe⟩ := hn.multiplyRow hm s.denseLimit
      · exact absurd hu hs
      · refine ⟨p, ends_broadcastMultiply ?_, hmax.symm ▸ hps, fun i hi k => ?_⟩
        · rw [← hp, ← hm.multiplyRow_swap hn hc, Matrix.broadcastMultiply, hneed]
          rfl
        · rw [hpe, mul_comm, hm.spread_single, spread, hn.height_eq, if_neg hone]

/-- Two rows of three columns. -/
def twoRows : Matrix ℚ := ⟨3, #[[(1, 2)], [(2, 3)]]⟩

/-- A row with an entry is multiplied with several, one without is not. -/
theorem broadcastMultiply_settings_twoRows :
    Fails (.standard ℚ) (Run.broadcastMultiply (.empty 1 3) twoRows : Run ℚ Unit _)
        (.refused .repeatedRows) ∧
      ∃ p, Ends (.standard ℚ) (Run.broadcastMultiply ⟨3, #[[(1, 5)]]⟩ twoRows : Run ℚ Unit _) p ∧
        p.Shaped 2 3 ∧ p.entry 0 1 = 10 := by
  have hlimit : (Settings.standard ℚ).denseLimit ≠ .undefined := by decide
  have hn : twoRows.Shaped 2 3 := by decide
  constructor
  · have hm : (Matrix.empty 1 3 : Matrix ℚ).Shaped 1 3 := by decide
    have hfails := hm.broadcastMultiply_settings (σ := Unit) hn (by decide) (by decide) hlimit
    have hcopied : ¬(Matrix.empty 1 3).Copied (Settings.standard ℚ).denseLimit twoRows := by
      rintro ⟨c, v, hc⟩
      cases hc
    rwa [if_pos ⟨rfl, by decide, hcopied⟩] at hfails
  · have hm : (⟨3, #[[(1, 5)]]⟩ : Matrix ℚ).Shaped 1 3 := by decide
    have hends := hm.broadcastMultiply_settings (σ := Unit) hn (by decide) (by decide) hlimit
    rw [if_neg fun h => h.2.2 ⟨_, _, rfl⟩] at hends
    obtain ⟨p, hp, hps, hpe⟩ := hends
    refine ⟨p, hp, hps, ?_⟩
    rw [hpe 0 (by decide)]
    decide +kernel

/-- Rows weighted by the sums of rows, where a single row may stand for all, are the same under all
settings. The state, and so every matrix that it holds, is left alone. -/
theorem Shaped.weighted_settings (hm : m.Shaped h w) (hn : n.Shaped h' w) (hpos : 0 < h ∧ 0 < h')
    (hh : h = h' ∨ h = 1 ∨ h' = 1) (hs : s.denseWeighting = true → s.denseLimit ≠ .undefined) :
    Leaves Eq (Run.weighted m n : Run α σ _) ∧
      ∃ p, Ends s (Run.weighted m n : Run α σ _) p ∧ p.Shaped (max h h') w ∧
        ∀ i < max h h', ∀ k, p.entry i k = m.spread i k * ∑ j ∈ Finset.range w, n.spread i j := by
  constructor
  · refine Leaves.bind (fun _ => rfl) fun c => ?_
    dsimp only
    split
    · exact (leaves_reportCopy _).bind fun _ => leaves_lift
    · exact leaves_lift
  · obtain ⟨hdense, hu, -⟩ | ⟨p, hp, hps, hpe⟩ :=
      hm.weighted hn hh hpos s.denseWeighting s.denseLimit
    · exact absurd hu (hs hdense)
    · exact ⟨p, ends_settings.bind (.ite (fun _ => ends_reportCopy.bind (ends_lift hp))
        fun _ => ends_lift hp), hps, hpe⟩

/-- Two rows weigh a single row, with dense copies or without, in a state that holds the matrices.
-/
theorem weighted_settings_twoRows :
    (∀ w, (ending ((Run.weighted ⟨3, #[[(1, 5)]]⟩ twoRows : Run ℚ (Matrix ℚ × Matrix ℚ) _)
        (w, (⟨3, #[[(1, 5)]]⟩, twoRows)))).2 = (⟨3, #[[(1, 5)]]⟩, twoRows)) ∧
      ∀ dense, ∃ p, Ends { denseWeighting := dense }
        (Run.weighted ⟨3, #[[(1, 5)]]⟩ twoRows : Run ℚ (Matrix ℚ × Matrix ℚ) _) p ∧
        p.Shaped 2 3 ∧ p.entry 1 1 = 15 := by
  have hm : (⟨3, #[[(1, 5)]]⟩ : Matrix ℚ).Shaped 1 3 := by decide
  have hn : twoRows.Shaped 2 3 := by decide
  have hlimit : (Settings.standard ℚ).denseLimit ≠ .undefined := by decide
  have hall (dense : Bool) := hm.weighted_settings (σ := Matrix ℚ × Matrix ℚ)
    (s := { denseWeighting := dense }) hn (by decide) (by decide) fun _ => hlimit
  refine ⟨fun w => ((hall true).1 (w, _)).symm, fun dense => ?_⟩
  obtain ⟨p, hp, hps, hpe⟩ := (hall dense).2
  refine ⟨p, hp, hps, ?_⟩
  rw [hpe 1 (by decide)]
  decide +kernel

end Matrix

end BeliefLogic
