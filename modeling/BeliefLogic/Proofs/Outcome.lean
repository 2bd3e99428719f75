import Mathlib
import BeliefLogic.Plan.Messages

/-!
# Successful computations

A computation that succeeds has succeeded in each of its parts. The lemmas below take successes
apart.
-/

namespace BeliefLogic

variable {u x : PUnit}

/-- What is on the left of related lists is related to something on the right. -/
theorem exists_of_forall₂ {β γ : Type} {R : β → γ → Prop} {xs : List β} {ys : List γ}
    (h : List.Forall₂ R xs ys) : ∀ x ∈ xs, ∃ y ∈ ys, R x y := by
  induction h with
  | nil => simp
  | cons hxy _ ih =>
    refine List.forall_mem_cons.2 ⟨⟨_, List.mem_cons_self, hxy⟩, fun x hx => ?_⟩
    obtain ⟨y, hy, hR⟩ := ih x hx
    exact ⟨y, List.mem_cons_of_mem _ hy, hR⟩

theorem forall₂_getD {β γ : Type} {R : β → γ → Prop} {xs : List β} {ys : List γ} {x : β} {y : γ}
    (h : List.Forall₂ R xs ys) (hxy : R x y) (i : ℕ) : R (xs[i]?.getD x) (ys[i]?.getD y) := by
  induction h generalizing i with
  | nil => exact hxy
  | cons hfirst _ ih =>
    cases i with
    | zero => exact hfirst
    | succ i => exact ih i

theorem forall₂_comp_mem {β γ δ : Type} {R : β → γ → Prop} {S : γ → δ → Prop}
    {T : β → δ → Prop} {xs : List β} {ys : List γ} {zs : List δ} (h : List.Forall₂ R xs ys)
    (h' : List.Forall₂ S ys zs) (hT : ∀ x ∈ xs, ∀ y ∈ ys, ∀ z, R x y → S y z → T x z) :
    List.Forall₂ T xs zs := by
  induction h generalizing zs with
  | nil =>
    cases h'
    exact .nil
  | cons hxy _ ih =>
    obtain ⟨z, zs, hyz, hrest, rfl⟩ := List.forall₂_cons_left_iff.1 h'
    refine .cons (hT _ List.mem_cons_self _ List.mem_cons_self z hxy hyz) (ih hrest ?_)
    exact fun x hx y hy => hT x (List.mem_cons_of_mem _ hx) y (List.mem_cons_of_mem _ hy)

namespace Outcome

variable {ε σ β γ : Type} {c : β} {f : β → Except ε γ}
variable {b : β} {s t : σ} {x : Except ε β}

@[simp] theorem ok_bind (b : β) : (.ok b >>= f) = f b := rfl

@[simp] theorem error_bind (e : ε) : (.error e >>= f) = .error e := rfl

@[simp] theorem except_pure (b : β) : (pure b : Except ε β) = .ok b := rfl

@[simp] theorem then_ok {c : γ} :
    x >>= f = .ok c ↔ ∃ b, x = .ok b ∧ f b = .ok c := by
  cases x <;> simp

@[simp] theorem except_pure_ok : (pure b : Except ε β) = .ok c ↔ b = c := by
  simp

theorem ok_unique (h : x = .ok b) (h' : x = .ok c) : b = c :=
  Except.ok.inj (h.symm.trans h')

@[simp] theorem except_throw_ok {e : ε} : (throw e : Except ε β) = .ok c ↔ False := by
  simp

theorem toOption_bind (x : Except ε β) (f : β → Except ε γ) :
    (x >>= f).toOption = x.toOption.bind fun b => (f b).toOption := by
  cases x <;> rfl

theorem toOption_eq_some : x.toOption = some b ↔ x = .ok b := by
  cases x <;> simp [Except.toOption]

theorem except_mapM_ok {xs : List β} {ys : List γ} (h : xs.mapM f = .ok ys) :
    List.Forall₂ (fun x y => f x = .ok y) xs ys := by
  induction xs generalizing ys with
  | nil =>
    obtain rfl := except_pure_ok.1 h
    exact .nil
  | cons x xs ih =>
    simp only [List.mapM_cons, then_ok, except_pure_ok] at h
    obtain ⟨y, hy, ys, hys, rfl⟩ := h
    exact .cons hy (ih hys)

theorem except_mapM_eq {g : β → γ} {xs : List β} (h : ∀ x ∈ xs, f x = .ok (g x)) :
    xs.mapM f = .ok (xs.map g) := by
  induction xs with
  | nil => rfl
  | cons x xs ih =>
    obtain ⟨hx, hxs⟩ := List.forall_mem_cons.1 h
    simp [hx, ih hxs]

@[simp] theorem except_mapM (xs : List β) (g : β → γ) :
    (xs.mapM fun x => .ok (g x)) = (.ok (xs.map g) : Except ε (List γ)) :=
  except_mapM_eq fun _ _ => rfl

/-- Computations that all succeed with results that fit. -/
theorem exists_except_mapM {R : β → γ → Prop} {xs : List β} (h : ∀ x ∈ xs, ∃ y, f x = .ok y ∧ R x y)
    : ∃ ys, xs.mapM f = .ok ys ∧ List.Forall₂ R xs ys := by
  induction xs with
  | nil => exact ⟨[], rfl, .nil⟩
  | cons x xs ih =>
    obtain ⟨hfirst, hrest⟩ := List.forall_mem_cons.1 h
    obtain ⟨y, hy, hxy⟩ := hfirst
    obtain ⟨ys, hys, hall⟩ := ih hrest
    refine ⟨y :: ys, ?_, .cons hxy hall⟩
    rw [List.mapM_cons]
    exact then_ok.2 ⟨y, hy, then_ok.2 ⟨ys, hys, rfl⟩⟩

variable {x : EStateM ε σ β} {f : β → EStateM ε σ γ}

@[simp] theorem bind_ok {c : γ} :
    (x >>= f) s = .ok c t ↔ ∃ b u, x s = .ok b u ∧ f b u = .ok c t := by
  simp only [bind, EStateM.bind]
  cases x s <;> simp

theorem bind_of_ok (h : x s = .ok b t) :
    (x >>= f) s = f b t := by
  simp only [bind, EStateM.bind, h]

theorem bind_of_error {e : ε} (h : x s = .error e t) :
    (x >>= f) s = .error e t := by
  simp only [bind, EStateM.bind, h]

@[simp] theorem map_ok {f : β → γ} {c : γ} :
    (f <$> x) s = .ok c t ↔ ∃ b, x s = .ok b t ∧ f b = c := by
  simp only [Functor.map, EStateM.map]
  cases x s <;> simp [and_comm]

@[simp] theorem pure_ok :
    (pure b : EStateM ε σ β) s = .ok c t ↔ b = c ∧ s = t := by
  simp [pure, EStateM.pure]

@[simp] theorem throw_ok {e : ε} : (throw e : EStateM ε σ β) s = .ok c t ↔ False := by
  simp [throw, throwThe, MonadExceptOf.throw, EStateM.throw]

@[simp] theorem get_ok {u : σ} : (get : EStateM ε σ σ) s = .ok u t ↔ s = u ∧ s = t := by
  simp [get, getThe, MonadStateOf.get, EStateM.get]

theorem get_bind {f : σ → EStateM ε σ γ} : (get >>= f) s = f s s := rfl

@[simp] theorem modify_ok {f : σ → σ} :
    (modify f : EStateM ε σ PUnit) s = .ok u t ↔ f s = t := by
  simp [modify, modifyGet, MonadStateOf.modifyGet, EStateM.modifyGet]

end Outcome

open Outcome

namespace Run

variable {α σ τ β : Type} {w w' : World α} {s s' : σ} {t t' : World α × σ} {b : β}

@[simp] theorem world_ok {v : World α} : (world : Run α σ _) t = .ok v t' ↔ t.1 = v ∧ t = t' := by
  simp [world, and_comm]

@[simp] theorem settings_ok {c : Settings α} :
    (settings : Run α σ _) t = .ok c t' ↔ t.1.settings = c ∧ t = t' := by
  simp [settings, and_comm]

@[simp] theorem state_ok {u : σ} : (state : Run α σ _) t = .ok u t' ↔ t.2 = u ∧ t = t' := by
  simp [state, and_comm]

theorem settings_bind {f : Settings α → Run α σ β} : (settings >>= f) t = f t.1.settings t := rfl

theorem state_bind {f : σ → Run α σ β} : (state >>= f) t = f t.2 t := rfl

@[simp] theorem setState_ok {u : σ} :
    (setState u : Run α σ _) t = .ok x t' ↔ (t.1, u) = t' := by
  simp [setState]

@[simp] theorem update_ok {f : σ → σ} :
    (update f : Run α σ _) t = .ok x t' ↔ (t.1, f t.2) = t' := by
  simp [update]

@[simp] theorem lift_ok {x : Except Error β} :
    (lift x : Run α σ β) t = .ok b t' ↔ x = .ok b ∧ t = t' := by
  cases x <;> simp [lift]

@[simp] theorem fail_ok {e : Error} : (fail e : Run α σ β) t = .ok b t' ↔ False := by
  simp [fail]

@[simp] theorem refuse_ok {e : Refusal} : (refuse e : Run α σ β) t = .ok b t' ↔ False := by
  simp [refuse]

@[simp] theorem require_ok {c : Bool} {e : Refusal} {x : Unit} :
    (require c e : Run α σ Unit) t = .ok x t' ↔ c = true ∧ t = t' := by
  cases c <;> simp [require]

@[simp] theorem focus_ok {get : σ → τ} {set : τ → σ → σ} {act : Run α τ β} :
    focus get set act t = .ok b t' ↔
      ∃ u, act (t.1, get t.2) = .ok b u ∧ (u.1, set u.2 t.2) = t' := by
  obtain ⟨w, s⟩ := t
  simp only [focus]
  rcases act (w, get s) with ⟨b', u⟩ | ⟨e, u⟩
  · simp only [EStateM.Result.ok.injEq]
    constructor
    · rintro ⟨rfl, rfl⟩
      exact ⟨u, ⟨rfl, rfl⟩, rfl⟩
    · rintro ⟨_, ⟨rfl, rfl⟩, rfl⟩
      exact ⟨rfl, rfl⟩
  · simp

variable {γ ι : Type} {R : World α × σ → World α × σ → Prop} {xs : List ι} {f : ι → Run α σ PUnit}

/-- A relation that holds where nothing happens, and composes. -/
class Settled (R : World α × σ → World α × σ → Prop) : Prop where
  refl : ∀ t, R t t
  trans : ∀ {t u v}, R t u → R u v → R t v

/-- Every success of a run relates what was before to what is after. -/
def Moves (R : World α × σ → World α × σ → Prop) (act : Run α σ β) : Prop :=
  ∀ t b u, act t = .ok b u → R t u

theorem Moves.ite {c : Prop} [Decidable c] {a b : Run α σ β} (ha : Moves R a) (hb : Moves R b) :
    Moves R (if c then a else b) := by
  split
  · exact ha
  · exact hb

variable [Settled R]

theorem moves_pure {b : β} : Moves R (pure b : Run α σ β) := by
  intro t b' u h
  obtain ⟨-, rfl⟩ := pure_ok.1 h
  exact Settled.refl t

theorem Moves.bind {act : Run α σ β} {f : β → Run α σ γ} (h : Moves R act)
    (hf : ∀ b, Moves R (f b)) : Moves R (act >>= f) := by
  intro t c v hv
  obtain ⟨b, u, hu, hv⟩ := bind_ok.1 hv
  exact Settled.trans (h _ _ _ hu) (hf b _ _ _ hv)

theorem moves_lift {x : Except Error β} : Moves R (lift x : Run α σ β) := by
  intro t b u h
  obtain ⟨-, rfl⟩ := lift_ok.1 h
  exact Settled.refl t

theorem moves_settings : Moves R (settings : Run α σ _) := by
  intro t b u h
  obtain ⟨-, rfl⟩ := settings_ok.1 h
  exact Settled.refl t

theorem moves_state : Moves R (state : Run α σ _) := by
  intro t b u h
  obtain ⟨-, rfl⟩ := state_ok.1 h
  exact Settled.refl t

theorem moves_require (c : Bool) (e : Refusal) : Moves R (require c e : Run α σ _) := by
  intro t b u h
  obtain ⟨-, rfl⟩ := require_ok.1 h
  exact Settled.refl t

theorem moves_forIn {xs : List ι} {init : β} {f : ι → β → Run α σ (ForInStep β)}
    (h : ∀ x b, Moves R (f x b)) : Moves R (forIn xs init f) := by
  induction xs generalizing init with
  | nil => exact moves_pure
  | cons x xs ih =>
    rw [List.forIn_cons]
    refine (h x init).bind fun r => ?_
    cases r with
    | done b => exact moves_pure
    | yield b => exact ih

omit [Settled R] in
/-- A loop keeps what holds of the members that it has done. -/
theorem forIn_ok {I : List ι → World α × σ → Prop}
    (hstep : ∀ done x rest, xs = done ++ x :: rest → ∀ t y t', I done t → f x t = .ok y t' →
      I (done ++ [x]) t') (hinit : I [] t) (hok : (forIn xs PUnit.unit fun x _ => do
      f x
      pure (ForInStep.yield PUnit.unit) : Run α σ PUnit) t = .ok u t') : I xs t' := by
  induction xs generalizing I t with
  | nil =>
    obtain ⟨-, rfl⟩ := pure_ok.1 hok
    exact hinit
  | cons x xs ih =>
    rw [List.forIn_cons] at hok
    obtain ⟨_, u, hu, hrest⟩ := bind_ok.1 hok
    obtain ⟨y, v, hy, hv⟩ := bind_ok.1 hu
    obtain ⟨rfl, rfl⟩ := pure_ok.1 hv
    exact ih (fun done y rest h => hstep (x :: done) y rest (h ▸ rfl))
      (hstep [] x xs rfl t y v hinit hy) hrest

omit [Settled R] in
/-- A loop whose steps all succeed where the invariant holds, and keep it. -/
theorem exists_forIn {f : ι → PUnit → Run α σ (ForInStep PUnit)} {I : List ι → World α × σ → Prop}
    (hstep : ∀ done x rest, xs = done ++ x :: rest → ∀ t, I done t →
      ∃ t', f x ⟨⟩ t = .ok (.yield ⟨⟩) t' ∧ I (done ++ [x]) t') (hinit : I [] t) :
    ∃ t', forIn xs PUnit.unit f t = .ok ⟨⟩ t' ∧ I xs t' := by
  induction xs generalizing I t with
  | nil => exact ⟨t, rfl, hinit⟩
  | cons x xs ih =>
    obtain ⟨u, hu, hnext⟩ := hstep [] x xs rfl t hinit
    obtain ⟨t', hrest, ht'⟩ := ih
      (fun done y rest h => hstep (x :: done) y rest (h ▸ rfl)) hnext
    refine ⟨t', ?_, ht'⟩
    rw [List.forIn_cons]
    exact bind_ok.2 ⟨_, u, hu, hrest⟩

omit [Settled R] in
theorem forIn_cons_ok {f : ι → Run α σ β} {y : β} {x : ι} {t u t' : World α × σ} (h : f x t = .ok y u)
    (hrest : (forIn xs PUnit.unit fun x _ => do
      let _ ← f x
      pure (ForInStep.yield PUnit.unit) : Run α σ PUnit) u = .ok ⟨⟩ t') :
    (forIn (x :: xs) PUnit.unit fun x _ => do
      let _ ← f x
      pure (ForInStep.yield PUnit.unit) : Run α σ PUnit) t = .ok ⟨⟩ t' := by
  rw [List.forIn_cons]
  exact bind_ok.2 ⟨.yield ⟨⟩, u, bind_ok.2 ⟨y, u, h, rfl⟩, hrest⟩

/-- Runs for the members of a list: each is between before and after. -/
theorem mapM_ok {f : ι → Run α σ β} (h : ∀ x ∈ xs, Moves R (f x)) {ys : List β}
    (hok : (xs.mapM f : Run α σ (List β)) t = .ok ys t') :
    R t t' ∧ List.Forall₂ (fun x y => ∃ t1 t2, R t t1 ∧ f x t1 = .ok y t2 ∧ R t2 t') xs ys := by
  induction xs generalizing t ys with
  | nil =>
    obtain ⟨rfl, rfl⟩ := pure_ok.1 hok
    exact ⟨Settled.refl t, .nil⟩
  | cons x xs ih =>
    simp only [List.mapM_cons, bind_ok] at hok
    obtain ⟨y, u, hx, ys, _, hrest, rfl, rfl⟩ := hok
    obtain ⟨hfirst, htail⟩ := List.forall_mem_cons.1 h
    obtain ⟨hall, hmem⟩ := ih htail hrest
    have hfirst := hfirst _ _ _ hx
    refine ⟨Settled.trans hfirst hall, .cons ⟨t, u, Settled.refl t, hx, hall⟩ ?_⟩
    refine hmem.imp fun z y ⟨t1, t2, h1, hz, h2⟩ => ?_
    exact ⟨t1, t2, Settled.trans hfirst h1, hz, h2⟩

/-- A run for each member of a list: each is between before and after. -/
theorem forM_ok (h : ∀ x ∈ xs, Moves R (f x))
    (hok : (forM xs f : Run α σ PUnit) t = .ok u t') :
    R t t' ∧ ∀ x ∈ xs, ∃ t1 t2 y, R t t1 ∧ f x t1 = .ok y t2 ∧ R t2 t' := by
  have hforM : (forM xs f : Run α σ PUnit) = xs.mapM f >>= fun _ => pure PUnit.unit := by
    clear hok h
    induction xs with
    | nil => rfl
    | cons x xs ih => simp [ih]
  rw [hforM] at hok
  obtain ⟨ys, v, hys, hv⟩ := bind_ok.1 hok
  obtain ⟨-, rfl⟩ := pure_ok.1 hv
  obtain ⟨hall, hmem⟩ := mapM_ok h hys
  refine ⟨hall, fun x hx => ?_⟩
  obtain ⟨y, -, t1, t2, hx⟩ := exists_of_forall₂ hmem x hx
  exact ⟨t1, t2, y, hx⟩

theorem moves_forM (xs : List ι) (h : ∀ x ∈ xs, Moves R (f x)) :
    Moves R (forM xs f) := fun _ _ _ hok => (forM_ok h hok).1

end Run

namespace Emit

variable {β : Type}

@[simp] theorem lift_ok {x : Except Error β} {b : β} {e e' : Emission} :
    (lift x : Emit β) e = .ok b e' ↔ x = .ok b ∧ e = e' := by
  cases x <;> simp [lift]

end Emit

end BeliefLogic
