import BeliefLogic.Proofs.Outcome

/-!
# Computations that go side by side

Two computations agree if from related states both succeed or both fail, in related states.
-/

namespace BeliefLogic

open List

namespace Outcome

variable {ε σ σ' τ τ' β γ β' γ' ι : Type} {xs : List ι}
variable {f : σ → σ} {g : τ → τ}

/-- From related states two computations both succeed or both fail, relatedly. -/
def Agree (P : σ → τ → Prop) (x : EStateM ε σ β) (y : EStateM ε τ γ)
    (Q : β → σ → γ → τ → Prop) (F : ε → σ → ε → τ → Prop) : Prop :=
  ∀ s t, P s t →
    (∃ b s' c t', x s = .ok b s' ∧ y t = .ok c t' ∧ Q b s' c t') ∨
    (∃ e s' f t', x s = .error e s' ∧ y t = .error f t' ∧ F e s' f t')

variable {P : σ → τ → Prop} {x : EStateM ε σ β} {y : EStateM ε τ γ}
  {Q : β → σ → γ → τ → Prop} {F : ε → σ → ε → τ → Prop}

/-- If one of two computations that agree succeeds, so does the other. -/
theorem Agree.of_ok (h : Agree P x y Q F) {s s' : σ} {t : τ} {b : β} (hst : P s t)
    (hx : x s = .ok b s') : ∃ c t', y t = .ok c t' ∧ Q b s' c t' := by
  rcases h s t hst with ⟨b', s'', c, t', hb, hc, hQ⟩ | ⟨e, s'', f, t', he, -⟩
  · rw [hx] at hb
    cases hb
    exact ⟨c, t', hc, hQ⟩
  · rw [hx] at he
    cases he

theorem Agree.mono {P' : σ → τ → Prop} {Q' : β → σ → γ → τ → Prop} {F' : ε → σ → ε → τ → Prop}
    (h : Agree P x y Q F) (hP : ∀ s t, P' s t → P s t)
    (hQ : ∀ b s c t, Q b s c t → Q' b s c t) (hF : ∀ e s f t, F e s f t → F' e s f t) :
    Agree P' x y Q' F' := by
  intro s t hst
  rcases h s t (hP s t hst) with ⟨b, s', c, t', hb, hc, hr⟩ | ⟨e, s', f, t', he, hf, hr⟩
  · exact .inl ⟨b, s', c, t', hb, hc, hQ _ _ _ _ hr⟩
  · exact .inr ⟨e, s', f, t', he, hf, hF _ _ _ _ hr⟩

/-- Two computations that agree with a third one. -/
theorem Agree.through {ρ δ : Type} {z : EStateM ε ρ δ} {P : σ → ρ → Prop} {P' : τ → ρ → Prop}
    {Q : β → σ → δ → ρ → Prop} {Q' : γ → τ → δ → ρ → Prop} {F : ε → σ → ε → ρ → Prop}
    {F' : ε → τ → ε → ρ → Prop} (h : Agree P x z Q F) (h' : Agree P' y z Q' F') {s : σ} {t : τ} {r : ρ}
    (hs : P s r) (ht : P' t r) :
    (∃ b s' c t', x s = .ok b s' ∧ y t = .ok c t' ∧ ∃ d r', Q b s' d r' ∧ Q' c t' d r') ∨
    (∃ e s' f t', x s = .error e s' ∧ y t = .error f t' ∧ ∃ g r', F e s' g r' ∧ F' f t' g r') := by
  rcases h s r hs with ⟨b, s', d, r', hx, hz, hQ⟩ | ⟨e, s', g, r', hx, hz, hF⟩
  · rcases h' t r ht with ⟨c, t', d', r'', hy, hz', hQ'⟩ | ⟨_, _, _, _, _, hz', -⟩
    · rw [hz] at hz'
      cases hz'
      exact .inl ⟨b, s', c, t', hx, hy, d, r', hQ, hQ'⟩
    · rw [hz] at hz'
      cases hz'
  · rcases h' t r ht with ⟨_, _, _, _, _, hz', -⟩ | ⟨f, t', g', r'', hy, hz', hF'⟩
    · rw [hz] at hz'
      cases hz'
    · rw [hz] at hz'
      cases hz'
      exact .inr ⟨e, s', f, t', hx, hy, g, r', hF, hF'⟩

theorem Agree.bind {f : β → EStateM ε σ β'} {g : γ → EStateM ε τ γ'}
    {R : β' → σ → γ' → τ → Prop} (h : Agree P x y Q F)
    (hfg : ∀ b c, Agree (fun s t => Q b s c t) (f b) (g c) R F) :
    Agree P (x >>= f) (y >>= g) R F := by
  intro s t hst
  rcases h s t hst with ⟨b, s', c, t', hb, hc, hQ⟩ | ⟨e, s', e', t', he, he', hF⟩
  · rw [bind_of_ok hb, bind_of_ok hc]
    exact hfg b c s' t' hQ
  · exact .inr ⟨e, s', e', t', bind_of_error he, bind_of_error he', hF⟩

theorem agree_pure {b : β} {c : γ} (h : ∀ s t, P s t → Q b s c t) :
    Agree P (pure b : EStateM ε σ β) (pure c : EStateM ε τ γ) Q F :=
  fun s t hst => .inl ⟨b, s, c, t, rfl, rfl, h s t hst⟩

theorem agree_throw {e f : ε} (h : ∀ s t, P s t → F e s f t) :
    Agree P (throw e : EStateM ε σ β) (throw f : EStateM ε τ γ) Q F :=
  fun s t hst => .inr ⟨e, s, f, t, rfl, rfl, h s t hst⟩

theorem agree_get_bind {f : σ → EStateM ε σ β} {g : τ → EStateM ε τ γ}
    (h : ∀ s t, P s t → Agree P (f s) (g t) Q F) :
    Agree P ((get : EStateM ε σ σ) >>= f) ((get : EStateM ε τ τ) >>= g) Q F :=
  fun s t hst => h s t hst s t hst

theorem agree_modify {R : PUnit → σ → PUnit → τ → Prop} (h : ∀ s t, P s t → R ⟨⟩ (f s) ⟨⟩ (g t)) :
    Agree P (modify f : EStateM ε σ PUnit) (modify g : EStateM ε τ PUnit) R F :=
  fun s t hst => .inl ⟨⟨⟩, f s, ⟨⟩, g t, rfl, rfl, h s t hst⟩

theorem Agree.ite {x' : EStateM ε σ β} {y' : EStateM ε τ γ} {p : Prop} [Decidable p]
    (h : p → Agree P x y Q F) (h' : ¬p → Agree P x' y' Q F) :
    Agree P (if p then x else x') (if p then y else y') Q F := by
  split
  · exact h ‹p›
  · exact h' ‹¬p›

/-- A computation whose result and state are taken for others. -/
def taken (f : β' → σ' → β) (g : σ' → σ) : EStateM.Result ε σ' β' → EStateM.Result ε σ β
  | .ok b v => .ok (f b v) (g v)
  | .error e v => .error e (g v)

/-- Computations that consist in others, on states of their own. -/
theorem Agree.taken {x' : EStateM ε σ' β'} {y' : EStateM ε τ' γ'} {P' : σ' → τ' → Prop}
    {Q' : β' → σ' → γ' → τ' → Prop} {F' : ε → σ' → ε → τ' → Prop} (h : Agree P' x' y' Q' F')
    {start : σ → σ'} {start' : τ → τ'} {f : β' → σ' → β} {f' : γ' → τ' → γ} {g : σ → σ' → σ}
    {g' : τ → τ' → τ} (hx : ∀ s, x s = Outcome.taken f (g s) (x' (start s)))
    (hy : ∀ t, y t = Outcome.taken f' (g' t) (y' (start' t)))
    (hP : ∀ s t, P s t → P' (start s) (start' t))
    (hQ : ∀ s t, P s t → ∀ b v c v', Q' b v c v' → Q (f b v) (g s v) (f' c v') (g' t v'))
    (hF : ∀ s t, P s t → ∀ e v e' v', F' e v e' v' → F e (g s v) e' (g' t v')) :
    Agree P x y Q F := by
  intro s t hst
  rw [hx, hy]
  rcases h _ _ (hP s t hst) with ⟨b, v, c, v', hb, hc, hQ'⟩ | ⟨e, v, e', v', he, he', hF'⟩
  · rw [hb, hc]
    exact .inl ⟨_, _, _, _, rfl, rfl, hQ s t hst _ _ _ _ hQ'⟩
  · rw [he, he']
    exact .inr ⟨_, _, _, _, rfl, rfl, hF s t hst _ _ _ _ hF'⟩

/-- Going through one list, what holds after a part of it is known. -/
theorem agree_forM {f : ι → EStateM ε σ PUnit} {g : ι → EStateM ε τ PUnit}
    {S : List ι → σ → τ → Prop} (hstep : ∀ done i rest, xs = done ++ i :: rest →
      Agree (S done) (f i) (g i) (fun _ s _ t => S (done ++ [i]) s t) F) :
    Agree (S []) (xs.forM f) (xs.forM g) (fun _ s _ t => S xs s t) F := by
  induction xs generalizing S with
  | nil => exact agree_pure fun _ _ hst => hst
  | cons i xs ih =>
    exact (hstep [] i xs rfl).bind fun _ _ => ih
      fun done j rest h => hstep (i :: done) j rest (h ▸ rfl)

/-- Members of lists are taken in turn, and their results go together. -/
theorem agree_mapM {S : σ → τ → Prop} {R : β → γ → Prop} {f : ι → EStateM ε σ β}
    {g : ι → EStateM ε τ γ} (h : ∀ i ∈ xs, Agree S (f i) (g i) (fun b s c t => R b c ∧ S s t) F) :
    Agree S (xs.mapM f) (xs.mapM g) (fun bs s cs t => Forall₂ R bs cs ∧ S s t) F := by
  induction xs with
  | nil => exact agree_pure fun _ _ hst => ⟨.nil, hst⟩
  | cons i xs ih =>
    rw [mapM_cons, mapM_cons]
    refine (h i mem_cons_self).bind fun b c => ?_
    rintro s t ⟨hbc, hst⟩
    have hrest := ih fun j hj => h j (mem_cons_of_mem i hj)
    refine hrest.bind (fun bs cs => ?_) s t hst
    rintro s t ⟨hall, hst⟩
    exact .inl ⟨_, s, _, t, rfl, rfl, .cons hbc hall, hst⟩

/-- Two computations give one result and keep a relation. -/
abbrev Same (S : σ → τ → Prop) (F : ε → σ → ε → τ → Prop) (x : EStateM ε σ β)
    (y : EStateM ε τ β) : Prop :=
  Agree S x y (fun b s c t => b = c ∧ S s t) F

variable {S : σ → τ → Prop} {z : EStateM ε σ β} {z' : EStateM ε τ β}

theorem Same.bind {f : β → EStateM ε σ γ} {g : β → EStateM ε τ γ} (h : Same S F z z')
    (hfg : ∀ b, Same S F (f b) (g b)) : Same S F (z >>= f) (z' >>= g) := by
  refine Agree.bind h fun b c => ?_
  rintro s t ⟨rfl, hst⟩
  exact hfg b s t hst

theorem same_pure {b : β} : Same S F (pure b) (pure b) := agree_pure fun _ _ hst => ⟨rfl, hst⟩

theorem Same.bind_pure {f : β → γ} (h : Same S F z z') :
    Same S F (z >>= fun b => pure (f b)) (z' >>= fun b => pure (f b)) :=
  h.bind fun _ => same_pure

theorem same_modify (h : ∀ s t, S s t → S (f s) (g t)) :
    Same S F (modify f : EStateM ε σ PUnit) (modify g) :=
  agree_modify fun s t hst => ⟨rfl, h s t hst⟩

theorem same_forM {f : ι → EStateM ε σ PUnit} {g : ι → EStateM ε τ PUnit}
    (h : ∀ i ∈ xs, Same S F (f i) (g i)) : Same S F (xs.forM f) (xs.forM g) := by
  have hall : Agree S (xs.forM f) (xs.forM g) (fun _ s _ t => S s t) F := by
    refine agree_forM (S := fun _ => S) fun done i rest hxs => ?_
    exact (h i (by simp [hxs])).mono (fun _ _ => id) (fun _ _ _ _ h => h.2) fun _ _ _ _ => id
  exact hall.mono (fun _ _ => id) (fun _ _ _ _ h => ⟨rfl, h⟩) fun _ _ _ _ => id

theorem same_foldlM {f : β → ι → EStateM ε σ β} {g : β → ι → EStateM ε τ β}
    (h : ∀ b, ∀ i ∈ xs, Same S F (f b i) (g b i)) (b : β) :
    Same S F (xs.foldlM f b) (xs.foldlM g b) := by
  induction xs generalizing b with
  | nil => exact same_pure
  | cons i xs ih =>
    exact (h b i mem_cons_self).bind fun c =>
      ih (fun b j hj => h b j (mem_cons_of_mem i hj)) c

theorem same_forIn {f : ι → PUnit → EStateM ε σ (ForInStep PUnit)}
    {g : ι → PUnit → EStateM ε τ (ForInStep PUnit)} (h : ∀ i ∈ xs, Same S F (f i ⟨⟩) (g i ⟨⟩)) :
    Same S F (forIn xs ⟨⟩ f) (forIn xs ⟨⟩ g) := by
  induction xs with
  | nil => exact same_pure
  | cons i xs ih =>
    rw [forIn_cons, forIn_cons]
    refine (h i mem_cons_self).bind fun next => ?_
    cases next with
    | done => exact same_pure
    | yield => exact ih fun j hj => h j (mem_cons_of_mem i hj)

theorem same_mapM {f : ι → EStateM ε σ β} {g : ι → EStateM ε τ β}
    (h : ∀ i ∈ xs, Same S F (f i) (g i)) : Same S F (xs.mapM f) (xs.mapM g) := by
  refine (agree_mapM h).mono (fun _ _ => id) (fun bs s cs t hall => ⟨?_, hall.2⟩) fun _ _ _ _ => id
  rw [← forall₂_eq_eq_eq]
  exact hall.1

end Outcome

namespace Run

open Outcome

variable {α σ τ σ' τ' β γ : Type}

/-- Worlds with the same settings, beside states that are related. -/
def Beside (s : Settings α) (T : σ → τ → Prop) (t : World α × σ) (u : World α × τ) : Prop :=
  t.1.settings = s ∧ u.1.settings = s ∧ T t.2 u.2

/-- Failures for related reasons that leave related states. -/
def FailsAlike (s : Settings α) (E : Error → Error → Prop) (T : σ → τ → Prop) (e : Error)
    (t : World α × σ) (f : Error) (u : World α × τ) : Prop :=
  E e f ∧ Beside s T t u

/-- Two runs give one result and keep a relation, or fail alike in a weaker one. -/
abbrev Twins (s : Settings α) (E : Error → Error → Prop) (T T' : σ → τ → Prop) (x : Run α σ β)
    (y : Run α τ β) : Prop :=
  Same (Beside s T) (FailsAlike s E T') x y

variable {s : Settings α} {E : Error → Error → Prop} {T T' : σ → τ → Prop}

section

variable [Std.Refl E] (hT : ∀ a b, T a b → T' a b)

include hT

theorem twins_fail (e : Error) : Twins s E T T' (fail e : Run α σ β) (fail e) :=
  agree_throw fun _ _ h => ⟨refl_of E e, h.1, h.2.1, hT _ _ h.2.2⟩

theorem twins_lift (x : Except Error β) : Twins s E T T' (lift x) (lift x) := by
  cases x with
  | ok b => exact same_pure
  | error e => exact twins_fail hT e

theorem twins_require (condition : Bool) (why : Refusal) :
    Twins s E T T' (require condition why) (require condition why) :=
  Agree.ite (fun _ => same_pure) fun _ => twins_fail hT (.refused why)

end

section

variable {P : World α × σ → World α × τ → Prop} {Q : β → World α × σ → γ → World α × τ → Prop}
  {F : Error → World α × σ → Error → World α × τ → Prop}

theorem agree_state {f : σ → Run α σ β} {g : τ → Run α τ γ}
    (h : ∀ a b, T a b → Agree (Beside s T) (f a) (g b) Q F) :
    Agree (Beside s T) (state >>= f) (state >>= g) Q F :=
  fun t u htu => h t.2 u.2 htu.2.2 t u htu

theorem agree_settings {f : Settings α → Run α σ β} {g : Settings α → Run α τ γ}
    (h : Agree (Beside s T) (f s) (g s) Q F) :
    Agree (Beside s T) (settings >>= f) (settings >>= g) Q F := by
  intro t u htu
  have hleft : (settings >>= f) t = f t.1.settings t := rfl
  have hright : (settings >>= g) u = g u.1.settings u := rfl
  rw [hleft, hright, htu.1, htu.2.1]
  exact h t u htu

theorem agree_lift {x : Except Error σ'} {f : σ' → Run α σ β} {g : σ' → Run α τ γ}
    (hok : ∀ b, x = .ok b → Agree P (f b) (g b) Q F)
    (herror : ∀ e, x = .error e → ∀ t u, P t u → F e t e u) :
    Agree P (lift x >>= f) (lift x >>= g) Q F := by
  cases x with
  | ok b => exact hok b rfl
  | error e => exact fun t u htu => .inr ⟨e, t, e, u, rfl, rfl, herror e rfl t u htu⟩

end

theorem focus_eq (get : σ → σ') (set : σ' → σ → σ) (x : Run α σ' β) (t : World α × σ) :
    focus get set x t =
      taken (fun b _ => b) (fun v => (v.1, set v.2 t.2)) (x (t.1, get t.2)) := by
  rw [focus]
  cases x (t.1, get t.2) <;> rfl

theorem within_eq (r : σ') (x : Run α σ' β) (t : World α × σ) :
    within r x t = taken (fun b v => (b, v.2)) (fun v => (v.1, t.2)) (x (t.1, r)) := by
  rw [within]
  cases x (t.1, r) <;> rfl

theorem agree_update {f : σ → σ} {g : τ → τ} {T1 : σ → τ → Prop}
    (h : ∀ a b, T a b → T1 (f a) (g b)) :
    Agree (Beside s T) (update f : Run α σ Unit) (update g)
      (fun _ t _ u => Beside s T1 t u) (FailsAlike s E T') :=
  fun _ _ htu => .inl ⟨_, _, _, _, rfl, rfl, htu.1, htu.2.1, h _ _ htu.2.2⟩

theorem twins_update {f : σ → σ} {g : τ → τ} (h : ∀ a b, T a b → T (f a) (g b)) :
    Twins s E T T' (update f) (update g) :=
  fun _ _ htu => .inl ⟨_, _, _, _, rfl, rfl, rfl, htu.1, htu.2.1, h _ _ htu.2.2⟩

theorem twins_print {text text' : String} : Twins s E T T' (print text) (print text') :=
  fun _ _ htu => .inl ⟨_, _, _, _, rfl, rfl, rfl, htu⟩

theorem twins_note (severity severity' : Severity) (text text' : String) :
    Twins s E T T' (note severity text) (note severity' text') :=
  fun _ _ htu => .inl ⟨_, _, _, _, rfl, rfl, rfl, htu⟩

/-- Lines that are only printed need not be the same. -/
theorem twins_sayAll (lines lines' : List String) :
    Twins s E T T' (lines.forM say) (lines'.forM say) := by
  intro t u htu
  have hsay (lines : List String) (σ : Type) (t : World α × σ) : ∃ t' : World α × σ,
      lines.forM say t = .ok ⟨⟩ t' ∧ t'.1.settings = t.1.settings ∧ t'.2 = t.2 := by
    induction lines generalizing t with
    | nil => exact ⟨t, rfl, rfl, rfl⟩
    | cons line lines ih => exact ih ({ t.1 with printed := t.1.printed.push (line ++ "\n") }, t.2)
  obtain ⟨t', ht, hsettings, hstate⟩ := hsay lines σ t
  obtain ⟨u', hu, hsettings', hstate'⟩ := hsay lines' τ u
  refine .inl ⟨_, t', _, u', ht, hu, rfl, hsettings.trans htu.1, hsettings'.trans htu.2.1, ?_⟩
  rw [hstate, hstate']
  exact htu.2.2

end Run

end BeliefLogic
