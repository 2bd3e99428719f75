import BeliefLogic.Proofs.Exact
import BeliefLogic.Studies.Sketches

/-!
# Sketches find what was put in

The row of an entity is never less than the slots of what it is related to, however these collide.
-/

namespace BeliefLogic

open List Run Studies

variable {α : Type} [ExactScalar α] {f g : ℕ → ℕ → α} {h w i j : ℕ}

namespace Sketch

def ofEntries (h w : ℕ) (f : ℕ → ℕ → α) : Dense α := ⟨w, (range h).map fun i => (range w).map (f i)⟩

theorem foldl_add_range (v : ℕ → α) (n : ℕ) :
    (range n).foldl (fun s j => s + v j) 0 = ∑ j ∈ Finset.range n, v j := by
  induction n with
  | zero => rfl
  | succ n ih => rw [range_succ, foldl_append, ih, Finset.sum_range_succ, foldl_cons, foldl_nil]

theorem column_ofEntries (hj : j < w) : (ofEntries h w f).column j = (range h).map (f · j) := by
  simp [Dense.column, ofEntries, hj]

theorem product_ofEntries (a b c : ℕ) : (ofEntries a b f).product (ofEntries b c g) =
    ofEntries a c fun i k => ∑ j ∈ Finset.range b, f i j * g j k := by
  refine congrArg (Dense.mk c) ?_
  simp only [ofEntries, map_map]
  refine map_congr_left fun i _ => map_congr_left fun k hk => ?_
  rw [← ofEntries, column_ofEntries (mem_range.1 hk), Dense.dot, zip_map', foldl_map]
  exact foldl_add_range _ b

/-- The transpose, whose columns are divided by their sums. -/
theorem spread_ofEntries : spread (ofEntries h w f) =
    ofEntries w h fun k i => f i k * (1 / ∑ j ∈ Finset.range w, f i j) := by
  have hsums : (ofEntries h w f).rowSums = (range h).map fun i => ∑ j ∈ Finset.range w, f i j := by
    simp only [Dense.rowSums, ofEntries, map_map]
    refine map_congr_left fun i _ => ?_
    rw [Function.comp_apply, foldl_map]
    exact foldl_add_range _ w
  rw [spread, hsums, Dense.transpose, Dense.scaleColumns]
  simp only [ofEntries, map_map, length_map, length_range]
  refine congrArg (Dense.mk h) (map_congr_left fun k hk => ?_)
  rw [← ofEntries, Function.comp_apply, column_ofEntries (mem_range.1 hk), zip_map', map_map]
  rfl

theorem mem_decodeRow (v : ℕ → α) (hj : j < h) (hv : ∀ k < w, f j k ≤ v k) :
    j ∈ decodeRow (ofEntries h w f) ((range w).map v) := by
  simp only [decodeRow, ofEntries, reaches, mem_map, mem_filter, mem_zipIdx_iff_getElem?]
  refine ⟨((range w).map (f j), j), ⟨by simp [hj], ?_⟩, rfl⟩
  simpa [zip_map'] using hv

/-- The row of an entity is not less than the slots of what it is related to. -/
theorem exists_row {n : ℕ} (hf : ∀ i k, f i k = 0 ∨ f i k = 1) (hg : ∀ i q, 0 ≤ g i q) (hi : i < n)
    (hslot : ∃ a < w, f i a = 1) : ∃ row : ℕ → α,
      ((unitRow n i).product (ofEntries n w f)).product (compress (ofEntries n w f) (ofEntries n n g)) =
        ofEntries 1 w (fun _ => row) ∧ ∀ j < n, g i j = 1 → ∀ k, f j k ≤ row k := by
  have hf0 (i k : ℕ) : 0 ≤ f i k := by rcases hf i k with h | h <;> simp [h]
  set d : ℕ → α := fun l => ∑ b ∈ Finset.range w, f l b
  set c : ℕ → ℕ → α := fun l k => ∑ q ∈ Finset.range n, g l q * f q k
  refine ⟨fun k => ∑ a ∈ Finset.range w, f i a * ∑ l ∈ Finset.range n, f l a * (1 / d l) * c l k, ?_,
    fun j hj hij k => ?_⟩
  · have hunit (k : ℕ) : ∑ q ∈ Finset.range n, (if q ∈ [i] then 1 else 0) * f q k = f i k := by
      simp [hi]
    have hone : unitRow n i = ofEntries 1 n fun _ q => if q ∈ [i] then (1 : α) else 0 := rfl
    simp only [hone, compress, spread_ofEntries, product_ofEntries, hunit]
    rfl
  · have hc (l : ℕ) : 0 ≤ c l k := Finset.sum_nonneg fun q _ => mul_nonneg (hg l q) (hf0 q k)
    have hd (l : ℕ) : 0 ≤ d l := Finset.sum_nonneg fun b _ => hf0 l b
    have hdi : d i ≠ 0 := by
      obtain ⟨a, ha, hia⟩ := hslot
      have hle := Finset.single_le_sum (fun b _ => hf0 i b) (Finset.mem_range.2 ha)
      rw [hia] at hle
      exact (one_pos.trans_le hle).ne'
    calc f j k = g i j * f j k := by rw [hij, one_mul]
      _ ≤ c i k := Finset.single_le_sum (fun q _ => mul_nonneg (hg i q) (hf0 q k))
        (Finset.mem_range.2 hj)
      _ = d i * (1 / d i) * c i k := by rw [mul_one_div_cancel hdi, one_mul]
      _ = ∑ a ∈ Finset.range w, f i a * (f i a * (1 / d i) * c i k) := by
        simp only [d, Finset.sum_mul]
        refine Finset.sum_congr rfl fun a _ => ?_
        rcases hf i a with h | h <;> simp [h]
      _ ≤ _ := Finset.sum_le_sum fun a _ => mul_le_mul_of_nonneg_left (Finset.single_le_sum
        (fun l _ => mul_nonneg (mul_nonneg (hf0 l a) (one_div_nonneg.2 (hd l))) (hc l))
        (Finset.mem_range.2 hi)) (hf0 i a)

theorem exists_decodeSketched {d : Dense α} (hd : d.rows ≠ []) (r : List α) (t : World α × Study α) :
    ∃ t', decodeSketched ⟨d.width, [r]⟩ d t =
      .ok ([(0, decodeRow d r)].filter fun e => !e.2.isEmpty) t' := by
  have hrows : d.rows.isEmpty = false := by simpa using hd
  simp only [decodeSketched, hrows]
  exact ⟨_, rfl⟩

/-- A relation of zeros and ones is mapped to slots by any hash function. All that an entity is
related to is found in its row. -/
theorem decodeSketched_related (hash : Hash) (n : ℕ) {w : ℕ} (hw : 0 < w) {salts : List ℤ}
    (hsalts : salts ≠ []) : ∃ h : Dense α, saltedEmbedding hash n w salts = .ok h ∧
      ∀ (related : ℕ → List ℕ) (i : ℕ), i < n → ∀ t : World α × Study α, ∃ found t',
        decodeSketched (((unitRow n i).product h).product (compress h (embedding n n related))) h t =
          .ok found t' ∧ ∀ j ∈ related i, j < n → ∃ js, (0, js) ∈ found ∧ j ∈ js := by
  let slots (i : ℕ) : List ℕ := salts.map fun s => (slot hash w s i).toNat
  let f (i k : ℕ) : α := if k ∈ slots i then 1 else 0
  refine ⟨ofEntries n w f, by simp [saltedEmbedding, hw.ne']; rfl, fun related i hi t => ?_⟩
  let g (i k : ℕ) : α := if k ∈ related i then 1 else 0
  have hslot : ∃ a < w, f i a = 1 := by
    obtain ⟨s, hs⟩ := exists_mem_of_ne_nil _ hsalts
    refine ⟨(slot hash w s i).toNat, ?_, if_pos (mem_map_of_mem hs)⟩
    have hlt := Int.fmod_lt_of_pos (exclusive (hash.integer (i + hash.text "pittsburgh")) s)
      (Int.natCast_pos.2 hw)
    rw [slot]
    omega
  obtain ⟨row, hrow, hle⟩ := exists_row (f := f) (g := g) (fun i k => (ite_eq_or_eq _ _ _).symm)
    (fun i q => by simp only [g]; split <;> simp) hi hslot
  obtain ⟨t', ht'⟩ := exists_decodeSketched (d := ofEntries n w f) (by simp [ofEntries]; omega)
    ((range w).map row) t
  refine ⟨_, t', (congrArg (decodeSketched · _ t) hrow).trans ht', fun j hj hjn => ?_⟩
  have hfound := mem_decodeRow (w := w) (f := f) row hjn fun k _ => hle j hjn (if_pos hj) k
  exact ⟨_, by simpa using ne_nil_of_mem hfound, hfound⟩

/-- In the study of ten entities, 4 and 8 are found in the sketch of 7. -/
theorem decodeSketched_related_sample : ∃ h : Dense ℚ, saltedEmbedding .usual 10 5 usualSalts = .ok h ∧
    ∃ found t', decodeSketched (((unitRow 10 7).product h).product
      (compress h (embedding 10 10 (sampleRelation.getD · [])))) h ({ settings := {} }, {}) =
        .ok found t' ∧ ∃ js js', (0, js) ∈ found ∧ 4 ∈ js ∧ (0, js') ∈ found ∧ 8 ∈ js' := by
  obtain ⟨h, hh, hfinds⟩ := @decodeSketched_related ℚ _ .usual 10 5 (by decide) usualSalts
    (by decide)
  obtain ⟨found, t', hrun, hfound⟩ := hfinds (sampleRelation.getD · []) 7 (by decide) ({ settings := {} }, {})
  obtain ⟨js, hjs, h4⟩ := hfound 4 (by decide) (by decide)
  obtain ⟨js', hjs', h8⟩ := hfound 8 (by decide) (by decide)
  exact ⟨h, hh, found, t', hrun, js, js', hjs, h4, hjs', h8⟩

end Sketch

end BeliefLogic
