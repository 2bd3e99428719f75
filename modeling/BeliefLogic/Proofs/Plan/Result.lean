import BeliefLogic.Proofs.Outcome
import BeliefLogic.Plan.Evaluation

/-!
# Results of plans

If an evaluation comes to an end, it ends with the result: a function of database and inputs.
-/

namespace BeliefLogic

open Outcome Run

variable {α : Type} {db : Database α} {t t' : World α × Scratch α}
variable {inputs : List (Matrix α)}

section

variable [Scalar α]

mutual

def Plan.result (s : Settings α) (db : Database α) (inputs : List (Matrix α)) :
    Plan → Except Error (Matrix α)
  | .null i _ =>
    match inputs with
    | [] => .error .outOfRange
    | x :: _ => db.zeros x.height i.outputType
  | .log _ p => do (← Plan.result s db inputs p).mapM Scalar.log1p?
  | .softmax _ p => do (← Plan.result s db inputs p).softmax s.denseLimit
  | .sum _ ps => do
    match ← Plan.results s db inputs ps with
    | [] => .error .outOfRange
    | m :: ms => ms.foldlM Matrix.add m
  | .sequence _ xs y ss _ => do
    if xs.length = inputs.length then
      (← Step.bindAll s db ss { values := .ofList (xs.zip inputs) }).value y
    else .error (.refused (.unequalBindings xs.length inputs.length))

/-- The results of plans for the same inputs. -/
def Plan.results (s : Settings α) (db : Database α) (inputs : List (Matrix α)) :
    List Plan → Except Error (List (Matrix α))
  | [] => return []
  | p :: ps => do
    let m ← Plan.result s db inputs p
    return m :: (← Plan.results s db inputs ps)

def Step.result (s : Settings α) (db : Database α) (b : Bindings α) : Step → Except Error (Matrix α)
  | .act i a => a.eval s db b i.type
  | .call _ x _ _ p => do Plan.result s db [← b.value x] p

def Step.bindAll (s : Settings α) (db : Database α) :
    List Step → Bindings α → Except Error (Bindings α)
  | [], b => return b
  | t :: ts, b => do Step.bindAll s db ts (b.bind t.target (← Step.result s db b t))

end

/-- Plans that have results together have results one by one. -/
theorem Plan.result_of_results {s : Settings α} {ps : List Plan} {ms : List (Matrix α)}
    (h : Plan.results s db inputs ps = .ok ms) :
    List.Forall₂ (fun q m => q.result s db inputs = .ok m) ps ms := by
  induction ps generalizing ms with
  | nil =>
    obtain rfl := except_pure_ok.1 h
    exact .nil
  | cons q ps ih =>
    simp only [Plan.results, then_ok, except_pure_ok] at h
    obtain ⟨m, hm, ms', hms', rfl⟩ := h
    exact .cons hm (ih hms')

end

/-- The plan has a number, and the listing that is asked for can be made. -/
def Plan.Listed (s : Settings α) (p : Plan) : Prop :=
  p.isNumbered = true ∧
    (s.traceFunctions = true → ∃ lines, p.lines s.dialect s.shownDepth 0 = .ok lines)

/-- A step has a number, and what is asked can be told. -/
def Step.Listed (s : Settings α) (t : Step) : Prop :=
  t.info.id.isSome = true ∧ (s.traceOperations = true → ∃ k, s.tracedEntries = .upTo k)

/-- What is asked of the nodes of a plan. -/
structure NodeCheck where
  plan : Plan → Prop
  step : Step → Prop

mutual

/-- A check is met at all nodes of a plan, also in the plans that it calls. -/
def Plan.Meets (K : NodeCheck) : Plan → Prop
  | .null i m => K.plan (.null i m)
  | .log i p => K.plan (.log i p) ∧ Plan.Meets K p
  | .softmax i p => K.plan (.softmax i p) ∧ Plan.Meets K p
  | .sum i ps => K.plan (.sum i ps) ∧ Plan.AllMeet K ps
  | .sequence i xs y ss r => K.plan (.sequence i xs y ss r) ∧ Step.AllMeet K ss

def Plan.AllMeet (K : NodeCheck) : List Plan → Prop
  | [] => True
  | p :: ps => Plan.Meets K p ∧ Plan.AllMeet K ps

def Step.Meets (K : NodeCheck) : Step → Prop
  | .act i a => K.step (.act i a)
  | .call i x m d p => K.step (.call i x m d p) ∧ Plan.Meets K p

def Step.AllMeet (K : NodeCheck) : List Step → Prop
  | [] => True
  | t :: ts => Step.Meets K t ∧ Step.AllMeet K ts

end

theorem Plan.allMeet_iff {K : NodeCheck} {ps : List Plan} :
    Plan.AllMeet K ps ↔ ∀ p ∈ ps, p.Meets K := by
  induction ps with
  | nil => simp [Plan.AllMeet]
  | cons p ps ih => simp [Plan.AllMeet, ih]

theorem Step.allMeet_iff {K : NodeCheck} {ts : List Step} :
    Step.AllMeet K ts ↔ ∀ t ∈ ts, t.Meets K := by
  induction ts with
  | nil => simp [Step.AllMeet]
  | cons t ts ih => simp [Step.AllMeet, ih]

/-- All that the settings ask can be told. -/
def NodeCheck.told (s : Settings α) : NodeCheck := ⟨Plan.Listed s, Step.Listed s⟩

namespace Run

variable {σ β γ : Type}

/-- The settings and the state are the same. -/
def Unchanged (t u : World α × σ) : Prop := u.1.settings = t.1.settings ∧ u.2 = t.2

instance : Settled (Unchanged : World α × σ → World α × σ → Prop) where
  refl _ := ⟨rfl, rfl⟩
  trans h h' := ⟨h'.1.trans h.1, h'.2.trans h.2⟩

abbrev Tells (act : Run α σ β) : Prop := Moves Unchanged act

theorem tells_print {text : String} : Tells (print text : Run α σ _) := by
  intro t b u h
  cases modify_ok.1 h
  exact ⟨rfl, rfl⟩

theorem tells_say {text : String} : Tells (say text : Run α σ _) := tells_print

theorem tells_note {severity : Severity} {text : String} :
    Tells (note severity text : Run α σ _) := by
  intro t b u h
  cases modify_ok.1 h
  exact ⟨rfl, rfl⟩

theorem tells_planLines (p : Plan) : Tells (planLines p : Run α σ _) :=
  moves_settings.bind fun _ => moves_lift

theorem tells_reportCopy {copy : Except Error (DenseCopy γ)} :
    Tells (reportCopy copy : Run α σ _) := by
  unfold reportCopy
  split
  · exact moves_settings.bind fun _ => tells_note.ite moves_pure
  · exact moves_pure

theorem tells_tellStep (s : Step) : Tells (tellStep s : Evaluating α _) :=
  moves_settings.bind fun _ => tells_print.ite moves_pure

theorem tells_tellPlan (what : String) (p : Plan) : Tells (tellPlan what p : Evaluating α _) :=
  moves_settings.bind fun _ => ((tells_planLines p).bind fun _ => tells_say).ite moves_pure

theorem requireId_ok {id? : Option ℕ} {id : ℕ} {t t' : World α × σ} :
    (requireId id? : Run α σ ℕ) t = .ok id t' ↔ id? = some id ∧ t = t' := by
  cases id? <;> simp [requireId]

theorem changeCell_ok {id : ℕ} {f : Cell α → Cell α} {x : Unit} :
    changeCell id f t = .ok x t' ↔ (t.1, t.2.change id f) = t' := by
  simp [changeCell]

theorem listed_of_tellPlan {p : Plan} {what : String} {u : Unit}
    (h : tellPlan what p t = .ok u t') (hf : t.1.settings.traceFunctions = true) :
    ∃ lines, p.lines t.1.settings.dialect t.1.settings.shownDepth 0 = .ok lines := by
  simp only [tellPlan, settings_bind] at h
  rw [if_pos hf] at h
  simp only [planLines, planLinesFrom, bind_ok, lift_ok, settings_bind] at h
  obtain ⟨lines, _, ⟨hl, rfl⟩, -⟩ := h
  exact ⟨lines, hl⟩

variable [Scalar α]

theorem tells_reportProduct (m n : Matrix α) : Tells (reportProduct m n : Run α σ _) := by
  unfold reportProduct
  split
  · exact moves_settings.bind fun _ => tells_reportCopy
  · exact moves_pure

theorem tells_reportWeighting (m n : Matrix α) : Tells (reportWeighting m n : Run α σ _) :=
  moves_settings.bind fun _ => tells_reportCopy.ite moves_pure

theorem tells_reportAction (b : Bindings α) (a : Action) :
    Tells (reportAction b a : Run α σ _) := by
  unfold reportAction
  split
  · split
    · exact tells_reportProduct _ _
    · exact moves_pure
  · split
    · exact tells_reportWeighting _ _
    · exact moves_pure
  · exact moves_pure

theorem tells_symbolsText (db : Database α) (m : Matrix α) :
    Tells (symbolsText db m : Run α σ _) :=
  moves_lift.bind fun _ => moves_pure

theorem tells_checkDefined (m : Matrix α) (context : String) :
    Tells (checkDefined m context : Run α σ _) :=
  moves_settings.bind fun _ => (moves_require _ _).ite moves_pure

theorem tells_tellStored (db : Database α) (m : Matrix α) : Tells (tellStored db m) := by
  refine moves_settings.bind fun choice => Moves.ite ?_ moves_pure
  have hlast : Tells (say "" : Evaluating α _) := tells_say
  have hmax : Tells (if choice.traceMaxima then (do
      print ("max " ++ greatestText m ++ " "); say "") else say "" : Evaluating α _) :=
    (tells_print.bind fun _ => hlast).ite hlast
  refine tells_print.bind fun _ => moves_lift.bind fun exceeded => Moves.ite ?_ hmax
  exact (tells_symbolsText db m).bind fun _ => tells_print.bind fun _ => hmax

theorem tells_checkStored (s : Step) (m : Matrix α) : Tells (checkStored s m) :=
  moves_settings.bind fun _ => (tells_checkDefined _ _).ite moves_pure

theorem tells_tellValues (db : Database α) (inputs : List (Matrix α)) (m : Matrix α) :
    Tells (tellValues db inputs m) := by
  refine moves_settings.bind fun choice => Moves.ite (Moves.bind ?_ fun _ => ?_) moves_pure
  · refine moves_forIn fun x b => ?_
    exact (tells_symbolsText db _).bind fun _ => tells_say.bind fun _ => moves_pure
  · exact (tells_symbolsText db m).bind fun _ => tells_say

/-- A step that was evaluated ran its action. -/
theorem evaluated_ok {s : Step} {act : Evaluating α (Bindings α)} {b : Bindings α}
    (h : evaluated db s act t = .ok b t') :
    ∃ u v, Unchanged t u ∧ act u = .ok b v ∧ s.Listed v.1.settings ∧
      t'.1.settings = v.1.settings := by
  simp only [evaluated, bind_ok, lift_ok, requireId_ok, changeCell_ok] at h
  obtain ⟨_, u, hu, b, v, hb, m, _, ⟨hm, rfl⟩, id, _, ⟨hid, rfl⟩, _, _, rfl, _, x, hx, _, y, hy,
    rfl, rfl⟩ := h
  refine ⟨u, v, tells_tellStep s _ _ _ hu, hb, ⟨by simp [hid], fun hop => ?_⟩,
    (tells_checkStored s m _ _ _ hy).1.trans (tells_tellStored db m _ _ _ hx).1⟩
  simp only [tellStored, settings_bind] at hx
  rw [if_pos hop] at hx
  simp only [bind_ok, lift_ok] at hx
  obtain ⟨_, _, -, exceeded, _, ⟨he, -⟩, -⟩ := hx
  cases hk : v.1.settings.tracedEntries with
  | upTo k => exact ⟨k, rfl⟩
  | undefined kind => simp [hk, Depth.isExceededBy] at he

/-- A plan that was evaluated ran, and what is asked of it could be told. -/
theorem invoked_ok {p : Plan} {act : Evaluating α (Matrix α)} {m : Matrix α}
    (h : invoked db p inputs act t = .ok m t') :
    ∃ u v, Unchanged t u ∧ act u = .ok m v ∧ p.Listed t.1.settings ∧
      t'.1.settings = v.1.settings := by
  simp only [invoked, bind_ok, requireId_ok, changeCell_ok] at h
  obtain ⟨_, u, hu, m, v, hm, id, _, ⟨hid, rfl⟩, _, _, rfl, _, x, hx, _, y, hy, rfl, rfl⟩ := h
  exact ⟨u, v, tells_tellPlan _ p _ _ _ hu, hm,
    ⟨by simp [Plan.isNumbered, hid], listed_of_tellPlan hu⟩,
    (tells_tellValues db inputs m _ _ _ hy).1.trans (tells_tellPlan _ p _ _ _ hx).1⟩

theorem softmax_ok {m n : Matrix α} {t t' : World α × σ}
    (h : (Run.softmax m : Run α σ _) t = .ok n t') :
    m.softmax t.1.settings.denseLimit = .ok n ∧ Unchanged t t' := by
  simp only [Run.softmax, bind_ok, lift_ok, settings_bind] at h
  obtain ⟨scores, _, ⟨hs, rfl⟩, _, u, hu, hn, rfl⟩ := h
  refine ⟨?_, tells_reportCopy _ _ _ hu⟩
  rw [Matrix.softmax, then_ok]
  exact ⟨scores, hs, hn⟩

end Run

variable [Scalar α]

mutual

/-- An evaluation that succeeds ends with the result of the plan. -/
theorem Plan.eval_ok {inputs : List (Matrix α)} :
    ∀ (p : Plan) {t t' : World α × Scratch α} {m : Matrix α},
      Plan.eval db inputs p t = .ok m t' →
      p.result t.1.settings db inputs = .ok m ∧ t'.1.settings = t.1.settings ∧ p.Meets (.told t.1.settings)
  | .null i mode, t, t', m, h => by
    simp only [Plan.eval] at h
    obtain ⟨u, v, hu, hm, hlisted, ht'⟩ := invoked_ok h
    cases inputs with
    | nil => simp at hm
    | cons x xs =>
      obtain ⟨hz, rfl⟩ := lift_ok.1 hm
      exact ⟨hz, ht'.trans hu.1, hlisted⟩
  | .log i p, t, t', m, h => by
    simp only [Plan.eval] at h
    obtain ⟨u, v, hu, hm, hlisted, ht'⟩ := invoked_ok h
    obtain ⟨x, v, hx, hm⟩ := bind_ok.1 hm
    obtain ⟨hl, rfl⟩ := lift_ok.1 hm
    obtain ⟨hx, hv, htold⟩ := Plan.eval_ok p hx
    rw [hu.1] at hx hv htold
    exact ⟨then_ok.2 ⟨x, hx, hl⟩, ht'.trans hv, hlisted, htold⟩
  | .softmax i p, t, t', m, h => by
    simp only [Plan.eval] at h
    obtain ⟨u, v, hu, hm, hlisted, ht'⟩ := invoked_ok h
    obtain ⟨x, w, hx, hm⟩ := bind_ok.1 hm
    obtain ⟨hx, hw, htold⟩ := Plan.eval_ok p hx
    obtain ⟨hm, hv⟩ := softmax_ok hm
    rw [hu.1] at hx hw htold
    rw [hw] at hm
    exact ⟨then_ok.2 ⟨x, hx, hm⟩, (ht'.trans hv.1).trans hw, hlisted, htold⟩
  | .sum i ps, t, t', m, h => by
    simp only [Plan.eval] at h
    obtain ⟨u, v, hu, hm, hlisted, ht'⟩ := invoked_ok h
    obtain ⟨xs, w, hx, hm⟩ := bind_ok.1 hm
    obtain ⟨hx, hw, htold⟩ := Plan.evalAll_ok ps hx
    rw [hu.1] at hx hw htold
    cases xs with
    | nil => simp at hm
    | cons x xs =>
      obtain ⟨hs, rfl⟩ := lift_ok.1 hm
      exact ⟨then_ok.2 ⟨x :: xs, hx, hs⟩, ht'.trans hw, hlisted, htold⟩
  | .sequence i xs y ss r, t, t', m, h => by
    simp only [Plan.eval] at h
    obtain ⟨u, v, hu, hm, hlisted, ht'⟩ := invoked_ok h
    simp only [bind_ok, requireId_ok, require_ok, changeCell_ok, lift_ok] at hm
    obtain ⟨id, _, ⟨-, rfl⟩, _, _, ⟨hlen, rfl⟩, b, w, hb, _, _, rfl, hm, rfl⟩ := hm
    obtain ⟨hb, hw, htold⟩ := Step.evalAll_ok ss hb
    rw [hu.1] at hb hw htold
    refine ⟨?_, ht'.trans hw, hlisted, htold⟩
    rw [Plan.result, if_pos (beq_iff_eq.1 hlen)]
    exact then_ok.2 ⟨b, hb, hm⟩

theorem Plan.evalAll_ok {inputs : List (Matrix α)} :
    ∀ (ps : List Plan) {t t' : World α × Scratch α} {ms : List (Matrix α)},
      Plan.evalAll db inputs ps t = .ok ms t' →
      Plan.results t.1.settings db inputs ps = .ok ms ∧ t'.1.settings = t.1.settings ∧
        Plan.AllMeet (.told t.1.settings) ps
  | [], t, t', ms, h => by
    obtain ⟨rfl, rfl⟩ := h
    exact ⟨rfl, rfl, trivial⟩
  | p :: ps, t, t', ms, h => by
    simp only [Plan.evalAll, bind_ok, pure_ok] at h
    obtain ⟨m, u, hm, ms', v, hms, rfl, rfl⟩ := h
    obtain ⟨hm, hu, htold⟩ := Plan.eval_ok p hm
    obtain ⟨hms, hv, htolds⟩ := Plan.evalAll_ok ps hms
    rw [hu] at hms hv htolds
    refine ⟨?_, hv, htold, htolds⟩
    simp [Plan.results, hm, hms]

theorem Step.eval_ok : ∀ (s : Step) {b b' : Bindings α}
    {t t' : World α × Scratch α}, Step.eval db s b t = .ok b' t' →
      (∃ m, s.result t.1.settings db b = .ok m ∧ b' = b.bind s.target m) ∧
        t'.1.settings = t.1.settings ∧ s.Meets (.told t.1.settings)
  | .act i a, b, b', t, t', h => by
    obtain ⟨u, v, hu, hb, hlisted, ht'⟩ := evaluated_ok h
    simp only [bind_ok, lift_ok, pure_ok, settings_bind] at hb
    obtain ⟨_, w, hw, x, _, ⟨hx, rfl⟩, rfl, rfl⟩ := hb
    have hw := (tells_reportAction b a _ _ _ hw).1.trans hu.1
    rw [hw] at hx hlisted
    exact ⟨⟨x, hx, rfl⟩, ht'.trans hw, hlisted⟩
  | .call i x mode d p, b, b', t, t', h => by
    obtain ⟨u, v, hu, hb, hlisted, ht'⟩ := evaluated_ok h
    simp only [bind_ok, lift_ok, pure_ok] at hb
    obtain ⟨source, _, ⟨hs, rfl⟩, y, w, hy, rfl, rfl⟩ := hb
    obtain ⟨hy, hw, htold⟩ := Plan.eval_ok p hy
    rw [hu.1] at hy hw htold
    rw [hw] at hlisted
    exact ⟨⟨y, then_ok.2 ⟨source, hs, hy⟩, rfl⟩, ht'.trans hw, hlisted, htold⟩

theorem Step.evalAll_ok : ∀ (ss : List Step) {b b' : Bindings α}
    {t t' : World α × Scratch α}, Step.evalAll db ss b t = .ok b' t' →
      Step.bindAll t.1.settings db ss b = .ok b' ∧ t'.1.settings = t.1.settings ∧
        Step.AllMeet (.told t.1.settings) ss
  | [], b, b', t, t', h => by
    obtain ⟨rfl, rfl⟩ := h
    exact ⟨rfl, rfl, trivial⟩
  | s :: ss, b, b', t, t', h => by
    simp only [Step.evalAll, bind_ok] at h
    obtain ⟨b1, u, h1, h⟩ := h
    obtain ⟨⟨m, hm, rfl⟩, hu, htold⟩ := Step.eval_ok s h1
    obtain ⟨hb, ht', htolds⟩ := Step.evalAll_ok ss h
    rw [hu] at hb ht' htolds
    exact ⟨then_ok.2 ⟨m, hm, hb⟩, ht', htold, htolds⟩

end

end BeliefLogic
