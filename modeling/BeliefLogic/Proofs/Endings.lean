import BeliefLogic.Proofs.Outcome

/-!
# What runs leave behind

A relation that holds where nothing happens, and composes, is kept by a run if its parts keep it,
however they end.
-/

namespace BeliefLogic

open Outcome

namespace Run

variable {α σ τ β γ ι : Type}
variable {get : σ → τ} {set : τ → σ → σ} {act : Run α σ β}

/-- What is there at the end of a run, however it ended. -/
def ending : EStateM.Result Error (World α × σ) β → World α × σ
  | .ok _ t => t
  | .error _ t => t

@[simp] theorem ending_ok (b : β) (t : World α × σ) :
    ending (.ok b t : EStateM.Result Error (World α × σ) β) = t := rfl

/-- However a run ends, it leaves a state related to the first one. -/
def Leaves (S : σ → σ → Prop) (act : Run α σ β) : Prop :=
  ∀ t, S t.2 (ending (act t)).2

variable {S : σ → σ → Prop}

/-- A run that works on a part of the state. -/
theorem Leaves.focus {T : τ → τ → Prop} {act : Run α τ β} (h : Leaves T act)
    (hS : ∀ s u, T (get s) u → S s (set u s)) : Leaves S (focus get set act) := by
  rintro ⟨w, s⟩
  have hact := h (w, get s)
  rw [Run.focus]
  cases hr : act (w, get s) with
  | ok b u =>
    rw [hr] at hact
    exact hS s u.2 hact
  | error e u =>
    rw [hr] at hact
    exact hS s u.2 hact

/-- A run that only works on a part of the state that does not matter. -/
theorem leaves_focus (act : Run α τ β) (hS : ∀ s u, S s (set u s)) :
    Leaves S (focus get set act) := by
  rintro ⟨w, s⟩
  rw [Run.focus]
  cases act (w, get s) with
  | ok b u => exact hS s u.2
  | error e u => exact hS s u.2

variable [Std.Refl S]

theorem leaves_pure {b : β} : Leaves S (pure b : Run α σ β) := fun t => refl_of S t.2

theorem leaves_throw {e : Error} : Leaves S (throw e : Run α σ β) := fun t => refl_of S t.2

theorem leaves_fail {e : Error} : Leaves S (fail e : Run α σ β) := leaves_throw

theorem leaves_refuse {e : Refusal} : Leaves S (refuse e : Run α σ β) := leaves_throw

theorem leaves_lift {x : Except Error β} : Leaves S (lift x : Run α σ β) := by
  cases x with
  | ok b => exact leaves_pure
  | error e => exact leaves_throw

theorem leaves_state : Leaves S (state : Run α σ σ) := fun t => refl_of S t.2

theorem leaves_say {line : String} : Leaves S (say line : Run α σ Unit) := fun t => refl_of S t.2

theorem leaves_within (u : τ) (act : Run α τ β) : Leaves S (within u act : Run α σ (β × τ)) := by
  rintro ⟨w, s⟩
  rw [within]
  cases act (w, u) with
  | ok b v => exact refl_of S s
  | error e v => exact refl_of S s

variable [IsTrans σ S]

omit [Std.Refl S] in
theorem Leaves.bind {f : β → Run α σ γ} (h : Leaves S act) (hf : ∀ b, Leaves S (f b)) :
    Leaves S (act >>= f) := by
  intro t
  have hact := h t
  simp only [Bind.bind, EStateM.bind]
  cases hr : act t with
  | ok b u =>
    rw [hr] at hact
    exact trans_of S hact (hf b u)
  | error e u =>
    rw [hr] at hact
    exact hact

theorem Leaves.bind_pure {f : β → γ} (h : Leaves S act) : Leaves S (act >>= fun b => pure (f b)) :=
  h.bind fun _ => leaves_pure

omit [Std.Refl S] in
/-- Where a failure is caught, what was done before it stays. -/
theorem Leaves.tryCatch {handler : Error → Run α σ β} (h : Leaves S act)
    (hh : ∀ e, Leaves S (handler e)) : Leaves S (tryCatch act handler) := by
  intro t
  have hact := h t
  simp only [MonadExcept.tryCatch, tryCatchThe, MonadExceptOf.tryCatch, EStateM.tryCatch]
  cases hr : act t with
  | ok b u =>
    rw [hr] at hact
    exact hact
  | error e u =>
    rw [hr] at hact
    exact trans_of S hact (hh e u)

/-- A loop each of whose turns keeps the relation. -/
theorem leaves_forIn {xs : List ι} {init : β} {f : ι → β → Run α σ (ForInStep β)}
    (h : ∀ x b, Leaves S (f x b)) : Leaves S (forIn xs init f) := by
  induction xs generalizing init with
  | nil => exact leaves_pure
  | cons x xs ih =>
    rw [List.forIn_cons]
    refine (h x init).bind fun r => ?_
    cases r with
    | done b => exact leaves_pure
    | yield b => exact ih

theorem leaves_foldlM {xs : List ι} {init : β} {f : β → ι → Run α σ β}
    (h : ∀ b x, Leaves S (f b x)) : Leaves S (xs.foldlM f init) := by
  induction xs generalizing init with
  | nil => exact leaves_pure
  | cons x xs ih =>
    exact (h init x).bind fun _ => ih

theorem leaves_mapM {xs : List ι} {f : ι → Run α σ β} (h : ∀ x, Leaves S (f x)) :
    Leaves S (xs.mapM f) := by
  induction xs with
  | nil => exact leaves_pure
  | cons x xs ih =>
    rw [List.mapM_cons]
    exact (h x).bind fun _ => ih.bind_pure

end Run

end BeliefLogic
