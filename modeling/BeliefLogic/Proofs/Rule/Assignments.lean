import Mathlib

/-!
# Sums over assignments

Messages split the sum over assignments, variable by variable, into independent parts.
-/

namespace BeliefLogic

abbrev Assignment := String → ℕ

namespace Assignment

open Finset Function

/-- The assignments of numbers below a bound to some variables, as one elsewhere. -/
def extensions (n : ℕ) : List String → Assignment → List Assignment
  | [], σ => [σ]
  | v :: vs, σ => (List.range n).flatMap fun k => extensions n vs (update σ v k)

variable {α : Type} [CommSemiring α] {n : ℕ} {vs : List String} {f : Assignment → α}
  {s : Set String}

/-- The sum over all ways to give numbers below a bound to some variables. -/
def total (n : ℕ) (vs : List String) (f : Assignment → α) (σ : Assignment) : α :=
  ((extensions n vs σ).map f).sum

@[simp] theorem total_nil (f : Assignment → α) (σ : Assignment) : total n [] f σ = f σ := by
  simp [total, extensions]

@[simp] theorem total_cons (v : String) (vs : List String) (f : Assignment → α) (σ : Assignment) :
    total n (v :: vs) f σ = ∑ k ∈ range n, total n vs f (update σ v k) := by
  rw [total, extensions, List.map_flatMap, List.flatMap_def, List.sum_flatten, List.map_map,
    ← List.sum_toFinset _ List.nodup_range, List.toFinset_range]
  rfl

theorem total_append (vs us : List String) (f : Assignment → α) (σ : Assignment) :
    total n (vs ++ us) f σ = total n vs (total n us f) σ := by
  induction vs generalizing σ with
  | nil => simp
  | cons v vs ih => simp [ih]

theorem total_congr {g : Assignment → α} (h : ∀ σ, f σ = g σ) (σ : Assignment) :
    total n vs f σ = total n vs g σ := by
  rw [funext h]

/-- The order of the variables does not matter. -/
theorem total_perm {us : List String} (h : vs.Perm us) (f : Assignment → α) (σ : Assignment) :
    total n vs f σ = total n us f σ := by
  induction h generalizing σ with
  | nil => rfl
  | cons v _ ih => simp [ih]
  | swap u v vs =>
    by_cases huv : u = v
    · rw [huv]
    · simp only [total_cons]
      rw [sum_comm]
      refine sum_congr rfl fun k _ => sum_congr rfl fun l _ => ?_
      rw [update_comm huv]
  | trans _ _ ih1 ih2 => rw [ih1, ih2]

/-- A sum depends on what its terms do, apart from its variables. -/
theorem dependsOn_total {t : Set String} (h : DependsOn f s) (hs : ∀ v ∈ s, v ∈ vs ∨ v ∈ t) :
    DependsOn (total n vs f) t := by
  induction vs generalizing t with
  | nil =>
    intro σ τ hστ
    rw [total_nil, total_nil]
    exact h fun v hv => hστ v ((hs v hv).resolve_left List.not_mem_nil)
  | cons u vs ih =>
    intro σ τ hστ
    have hrest : DependsOn (total n vs f) (insert u t) := ih fun v hv => by
      rcases hs v hv with hmem | ht
      · rcases List.mem_cons.1 hmem with rfl | hmem
        · exact .inr (Set.mem_insert _ _)
        · exact .inl hmem
      · exact .inr (Set.mem_insert_of_mem _ ht)
    rw [total_cons, total_cons]
    refine sum_congr rfl fun k _ => hrest fun v hv => ?_
    by_cases hvu : v = u
    · simp [hvu]
    · rw [update_of_ne hvu, update_of_ne hvu, hστ v (hv.resolve_left hvu)]

theorem update_of_dependsOn {β : Type} {f : Assignment → β} (h : DependsOn f s) {v : String}
    (hv : v ∉ s) (σ : Assignment) (k : ℕ) : f (update σ v k) = f σ :=
  h fun u hu => update_of_ne (fun huv : u = v => hv (huv ▸ hu)) _ _

theorem total_mul_left (hf : DependsOn f s) (hs : ∀ v ∈ vs, v ∉ s) (g : Assignment → α)
    (σ : Assignment) : total n vs (fun τ => f τ * g τ) σ = f σ * total n vs g σ := by
  induction vs generalizing σ with
  | nil => simp
  | cons v vs ih =>
    obtain ⟨hv, hvs⟩ := List.forall_mem_cons.1 hs
    simp [ih hvs, update_of_dependsOn hf hv, mul_sum]

/-- The sum of a product with nothing in common to sum over. -/
theorem total_mul {us : List String} {g : Assignment → α} {t : Set String} (hf : DependsOn f s)
    (hg : DependsOn g t) (hs : ∀ v ∈ us, v ∉ s) (ht : ∀ v ∈ vs, v ∉ t) (σ : Assignment) :
    total n (vs ++ us) (fun τ => f τ * g τ) σ = total n vs f σ * total n us g σ := by
  have hg' : DependsOn (total n us g) t := dependsOn_total hg fun v hv => .inr hv
  calc total n (vs ++ us) (fun τ => f τ * g τ) σ
      = total n vs (fun τ => f τ * total n us g τ) σ := by
        rw [total_append]
        exact total_congr (total_mul_left hf hs g) σ
    _ = total n us g σ * total n vs f σ := by
        rw [← total_mul_left hg' ht f σ]
        exact total_congr (fun τ => mul_comm _ _) σ
    _ = total n vs f σ * total n us g σ := mul_comm _ _

end Assignment

end BeliefLogic
