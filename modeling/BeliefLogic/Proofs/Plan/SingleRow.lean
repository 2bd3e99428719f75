import BeliefLogic.Proofs.Plan.Rowwise

/-!
# Plans on single rows

On a single row every value of a plan is a single row, so all matrices fit.
-/

namespace BeliefLogic

open Outcome Run Bindings List

variable {α : Type}

/-- Applying a function to stored values keeps the shape. -/
theorem Matrix.Shaped.map_values {m : Matrix α} {h w : ℕ} (hm : m.Shaped h w) (f : α → α) :
    (m.map f).Shaped h w := by
  obtain ⟨hh, hw, hb⟩ := Matrix.shaped_iff.1 hm
  refine Matrix.shaped_iff.2 ⟨?_, hw, fun r hr e he => ?_⟩
  · rw [← hh]
    exact Array.size_map
  · simp only [Matrix.map, Matrix.mapRows, Array.toList_map, mem_map] at hr
    obtain ⟨r', hr', rfl⟩ := hr
    obtain ⟨e', he', rfl⟩ := mem_map.1 he
    exact hb r' hr' e' he'

variable [ExactExponential α] {s : Settings α} {db : Database α} {n : ℕ}

mutual

/-- If a plan has a result for a single row, its evaluation ends with it. -/
theorem Plan.ends_of_result (hdb : db.Regular n) : ∀ p : Plan, p.Meets (.told s) → ∀ (x m : Matrix α),
    x.Shaped 1 n → p.result s db [x] = .ok m → Ends s (Plan.eval db [x] p) m ∧ m.Shaped 1 n
  | .null i mode, htold, x, m, hx, hm => by
    have hm : db.zeros x.height _ = .ok m := hm
    rw [hdb.zeros_eq, hx.height_eq] at hm
    obtain rfl := Except.ok.inj hm
    refine ⟨?_, Matrix.shaped_empty 1 n⟩
    simp only [Plan.eval]
    refine ends_invoked hdb htold (by simpa using ⟨1, hx⟩) (ends_lift ?_) (Matrix.shaped_empty 1 n)
    rw [hdb.zeros_eq, hx.height_eq]
  | .log i p, htold, x, m, hx, hm => by
    obtain ⟨y, hy, hm⟩ := then_ok.1 hm
    obtain ⟨hends, hys⟩ := Plan.ends_of_result hdb p htold.2 x y hx hy
    have hlog : m = y.map _ :=
      ok_unique hm (Matrix.mapM_ok (fun a => Scalar.watch_eq _ _ _ _) y)
    have hms : m.Shaped 1 n := hlog ▸ hys.map_values _
    refine ⟨?_, hms⟩
    simp only [Plan.eval]
    exact ends_invoked hdb htold.1 (by simpa using ⟨1, hx⟩) (hends.bind (ends_lift hm)) hms
  | .softmax i p, htold, x, m, hx, hm => by
    obtain ⟨y, hy, hm⟩ := then_ok.1 hm
    obtain ⟨hends, hys⟩ := Plan.ends_of_result hdb p htold.2 x y hx hy
    obtain ⟨hw, hscore, hlimit⟩ := hys.of_softmax_ok hm
    obtain ⟨q, r, hq, hr, hrs, -⟩ := hys.softmax one_pos hw
      (fun j hj => by rwa [show j = 0 by omega]) hlimit
    obtain rfl : m = r :=
      ok_unique hm (then_ok.2 ⟨q, hq, hr⟩)
    refine ⟨?_, hrs⟩
    refine ends_invoked hdb htold.1 (by simpa using ⟨1, hx⟩) (hends.bind ?_) hrs
    exact ends_settings.bind ((ends_lift hq).bind (ends_reportCopy.bind (ends_lift hr)))
  | .sum i ps, htold, x, m, hx, hm => by
    obtain ⟨ms, hms, hm⟩ := then_ok.1 hm
    obtain ⟨hends, hshaped⟩ := Plan.ends_of_results hdb ps htold.2 x ms hx hms
    cases ms with
    | nil => cases hm
    | cons y ys =>
      obtain ⟨hy, hys⟩ := forall_mem_cons.1 hshaped
      obtain ⟨r, hr, hrs, -⟩ := Matrix.exists_foldlM_add ys hy hys
      obtain rfl := ok_unique hm hr
      refine ⟨?_, hrs⟩
      exact ends_invoked hdb htold.1 (by simpa using ⟨1, hx⟩) (hends.bind (ends_lift hr)) hrs
  | .sequence i xs y ss r, htold, x, m, hx, hm => by
    rw [Plan.result] at hm
    split at hm
    · next hlen =>
      obtain ⟨u, rfl⟩ := length_eq_one_iff.1 hlen
      obtain ⟨b, hb, hm⟩ := then_ok.1 hm
      obtain ⟨hends, hrows⟩ := Step.ends_of_bindAll hdb ss htold.2 _ b (single_start hx u) hb
      have hms : m.Shaped 1 n := hrows y m hm
      obtain ⟨id, hid⟩ := Option.isSome_iff_exists.1 htold.1.1
      have hid : i.id = some id := hid
      refine ⟨?_, hms⟩
      refine ends_invoked hdb htold.1 (by simpa using ⟨1, hx⟩) ?_ hms
      rw [hid]
      exact (ends_requireId id).bind <| (ends_require rfl _).bind <| hends.bind <|
        (ends_changeCell id _).bind (ends_lift hm)
    · cases hm

theorem Plan.ends_of_results (hdb : db.Regular n) : ∀ ps : List Plan, Plan.AllMeet (.told s) ps →
    ∀ (x : Matrix α) (ms : List (Matrix α)), x.Shaped 1 n → Plan.results s db [x] ps = .ok ms →
    Ends s (Plan.evalAll db [x] ps) ms ∧ ∀ m ∈ ms, m.Shaped 1 n
  | [], _, x, ms, hx, hms => by
    obtain rfl := except_pure_ok.1 hms
    exact ⟨ends_pure, by simp⟩
  | p :: ps, htold, x, ms, hx, hms => by
    simp only [Plan.results, then_ok, except_pure_ok] at hms
    obtain ⟨m, hm, ms', hms', rfl⟩ := hms
    obtain ⟨hends, hshaped⟩ := Plan.ends_of_result hdb p htold.1 x m hx hm
    obtain ⟨hends', hshaped'⟩ := Plan.ends_of_results hdb ps htold.2 x ms' hx hms'
    exact ⟨hends.bind (hends'.bind ends_pure), forall_mem_cons.2 ⟨hshaped, hshaped'⟩⟩

theorem Step.ends_of_result (hdb : db.Regular n) : ∀ t : Step, t.Meets (.told s) → ∀ (b : Bindings α)
    (m : Matrix α), b.Single n → t.result s db b = .ok m →
    Ends s (Step.eval db t b) (b.bind t.target m) ∧ m.Shaped 1 n
  | .act i a, htold, b, m, hb, hm => by
    obtain ⟨hms, -⟩ := Action.value_of_ok hdb hb hm
    refine ⟨?_, hms⟩
    refine ends_evaluated hdb htold ?_ (by rw [value_bind]; exact if_pos rfl) hms
    exact (ends_reportAction b a).bind <| ends_settings.bind <| (ends_lift hm).bind ends_pure
  | .call i x mode d p, htold, b, m, hb, hm => by
    obtain ⟨source, hs, hm⟩ := then_ok.1 hm
    obtain ⟨hends, hms⟩ := Plan.ends_of_result hdb p htold.2 source m (hb x source hs) hm
    refine ⟨?_, hms⟩
    refine ends_evaluated hdb htold.1 ?_ (by rw [value_bind]; exact if_pos rfl) hms
    exact (ends_lift hs).bind (hends.bind ends_pure)

theorem Step.ends_of_bindAll (hdb : db.Regular n) : ∀ ts : List Step, Step.AllMeet (.told s) ts →
    ∀ (b b' : Bindings α), b.Single n → Step.bindAll s db ts b = .ok b' →
    Ends s (Step.evalAll db ts b) b' ∧ b'.Single n
  | [], _, b, b', hb, h => by
    obtain rfl := except_pure_ok.1 h
    exact ⟨ends_pure, hb⟩
  | t :: ts, htold, b, b', hb, h => by
    obtain ⟨m, hm, h⟩ := then_ok.1 h
    obtain ⟨hends, hms⟩ := Step.ends_of_result hdb t htold.1 b m hb hm
    have hb := hb.bind t.target hms
    obtain ⟨hends', hrows⟩ := Step.ends_of_bindAll hdb ts htold.2 _ b' hb h
    exact ⟨hends.bind hends', hrows⟩

end

/-- A plan with a result for a row can be evaluated on it once numbered. -/
theorem Plan.exists_eval_number (hdb : db.Regular n) {p : Plan} {x m : Matrix α} (hx : x.Shaped 1 n)
    {t : World α × Scratch α} (hsilent : t.1.settings.IsSilent)
    (hm : p.result t.1.settings db [x] = .ok m) (copying : Bool) (first : ℕ) (table : PlanTable) :
    ∃ t', Plan.eval db [x] ((Plan.number copying p first).run table).1.1 t = .ok m t' := by
  have hspec := Plan.number_spec copying p first table
  obtain ⟨hends, -⟩ := Plan.ends_of_result hdb _ (hspec.told hsilent) x m hx
    (Plan.result_congr hdb hspec.bare.symm hm)
  obtain ⟨t', ht', -⟩ := hends t rfl
  exact ⟨t', ht'⟩

end BeliefLogic
