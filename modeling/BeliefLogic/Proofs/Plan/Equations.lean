import BeliefLogic.Proofs.Database
import BeliefLogic.Proofs.Plan.Result

/-!
# Steps as equations

If no variable is bound twice, the bindings at the end satisfy the equation of every step at once.
-/

namespace BeliefLogic

open Outcome List

variable {α : Type} {b b' : Bindings α} {m : Matrix α}

namespace Bindings

/-- Everything bound stays bound to the same value. -/
def Extends (b b' : Bindings α) : Prop := ∀ x m, b.value x = .ok m → b'.value x = .ok m

theorem Extends.refl (b : Bindings α) : Extends b b := fun _ _ h => h

theorem Extends.trans {b'' : Bindings α} (h : Extends b b') (h' : Extends b' b'') :
    Extends b b'' := fun x m hx => h' x m (h x m hx)

theorem value_bind (b : Bindings α) (x y : String) (m : Matrix α) :
    (b.bind x m).value y = if x = y then .ok m else b.value y := by
  by_cases h : x = y <;> simp [value, Bindings.bind, h]

/-- The bindings with which a sequence of one input starts. -/
def start (u : String) (x : Matrix α) : Bindings α :=
  { values := .ofList [(u, x)] }

theorem value_start {u y : String} {x : Matrix α} :
    (start u x).value y = .ok m ↔ u = y ∧ x = m := by
  have : (start u x).value y = (Bindings.bind {} u x).value y := rfl
  rw [this, value_bind]
  split
  · next h => simp [h]
  · next h => simp [h, value, Dictionary.get?, Dictionary.lookup]

def IsBound (b : Bindings α) (x : String) : Prop := ∃ m, b.value x = .ok m

theorem extends_bind {x : String} (h : ¬b.IsBound x) (m : Matrix α) : Extends b (b.bind x m) := by
  intro y m' hy
  rw [value_bind, if_neg]
  · exact hy
  · rintro rfl
    exact h ⟨m', hy⟩

theorem isBound_bind {x y : String} : (b.bind x m).IsBound y ↔ x = y ∨ b.IsBound y := by
  unfold IsBound
  rw [value_bind]
  by_cases h : x = y <;> simp [h]

end Bindings

open Bindings

variable [Scalar α] {s : Settings α} {db : Database α}

/-- The value of an action stays the same when more is bound. -/
theorem Action.eval_mono (h : Extends b b') {type : Option String} {a : Action}
    (ha : a.eval s db b type = .ok m) : a.eval s db b' type = .ok m := by
  cases a with
  | preimage mode => exact ha
  | vector mode => exact ha
  | oneHot mode constant => exact ha
  | plugin sources mode => exact ha
  | product source mode transpose =>
    obtain ⟨rows, hr, ha⟩ := then_ok.1 ha
    exact then_ok.2 ⟨rows, h _ _ hr, ha⟩
  | hadamard left right =>
    obtain ⟨l, hl, ha⟩ := then_ok.1 ha
    obtain ⟨r, hr, ha⟩ := then_ok.1 ha
    exact then_ok.2 ⟨l, h _ _ hl, then_ok.2 ⟨r, h _ _ hr, ha⟩⟩
  | weighted weight row =>
    obtain ⟨r, hr, ha⟩ := then_ok.1 ha
    obtain ⟨w, hw, ha⟩ := then_ok.1 ha
    exact then_ok.2 ⟨r, h _ _ hr, then_ok.2 ⟨w, h _ _ hw, ha⟩⟩

theorem Step.result_mono (h : Extends b b') {t : Step} (ht : t.result s db b = .ok m) :
    t.result s db b' = .ok m := by
  cases t with
  | act i a => exact Action.eval_mono h ht
  | call i x mode d p =>
    obtain ⟨source, hx, ht⟩ := then_ok.1 ht
    exact then_ok.2 ⟨source, h _ _ hx, ht⟩

/-- Steps that bind every variable once satisfy all their equations. -/
theorem Step.bindAll_equations {ts : List Step} (h : Step.bindAll s db ts b = .ok b')
    (hnd : (ts.map Step.target).Nodup) (hfresh : ∀ t ∈ ts, ¬b.IsBound t.target) :
    Extends b b' ∧ ∀ t ∈ ts, ∃ m, t.result s db b' = .ok m ∧ b'.value t.target = .ok m := by
  induction ts generalizing b with
  | nil =>
    obtain rfl : b = b' := by simpa [Step.bindAll] using h
    exact ⟨.refl b, by simp⟩
  | cons t ts ih =>
    obtain ⟨m, hm, h⟩ := then_ok.1 h
    obtain ⟨hnot, hnd⟩ := nodup_cons.1 hnd
    have hext := extends_bind (hfresh t mem_cons_self) m
    obtain ⟨hext', heqs⟩ := ih h hnd fun u hu hb => by
      rcases isBound_bind.1 hb with heq | hb
      · exact hnot (heq ▸ mem_map_of_mem hu)
      · exact hfresh u (mem_cons_of_mem _ hu) hb
    refine ⟨hext.trans hext', fun u hu => ?_⟩
    rcases mem_cons.1 hu with rfl | hu
    · refine ⟨m, Step.result_mono (hext.trans hext') hm, hext' _ _ ?_⟩
      rw [value_bind, if_pos rfl]
    · exact heqs u hu

end BeliefLogic
