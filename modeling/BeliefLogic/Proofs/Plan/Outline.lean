import BeliefLogic.Proofs.Plan.Alike

/-!
# What evaluation depends on

Over a database without types, plans with the same outline have the same answers and fail alike.
-/

namespace BeliefLogic

open Outcome Run

/-- Reasons that differ at most in the type of an unknown constant. -/
def Error.Alike (e f : Error) : Prop :=
  e = f ∨ ∃ constant type type', e = .refused (.unknownConstant constant type) ∧
    f = .refused (.unknownConstant constant type')

instance : Std.Refl Error.Alike := ⟨fun _ => .inl rfl⟩

theorem Error.Alike.trans_symm {e f g : Error} (h : e.Alike g) (h' : f.Alike g) : e.Alike f := by
  rcases h with rfl | ⟨constant, type, type', rfl, rfl⟩
  · rcases h' with rfl | ⟨constant, type, type', rfl, rfl⟩
    · exact .inl rfl
    · exact .inr ⟨constant, type', type, rfl, rfl⟩
  · rcases h' with rfl | ⟨constant', type1, type2, rfl, heq⟩
    · exact .inr ⟨constant, type, type', rfl, rfl⟩
    · cases heq
      exact .inr ⟨constant, type, type1, rfl, rfl⟩

def Anything {σ τ : Type} (_ : σ) (_ : τ) : Prop := True

/-- Both computations succeed, or both fail for the same reason. -/
def EndAlike {β γ : Type} (x : Except Error β) (y : Except Error γ) : Prop :=
  (∃ b c, x = .ok b ∧ y = .ok c) ∨ ∃ e, x = .error e ∧ y = .error e

theorem EndAlike.ok {β γ : Type} {b : β} {c : γ} :
    EndAlike (.ok b : Except Error β) (.ok c : Except Error γ) := .inl ⟨b, c, rfl, rfl⟩

theorem EndAlike.bind {β γ β' γ' : Type} {x : Except Error β} {y : Except Error γ}
    {f : β → Except Error β'} {g : γ → Except Error γ'} (h : EndAlike x y)
    (hfg : ∀ b c, EndAlike (f b) (g c)) : EndAlike (x >>= f) (y >>= g) := by
  rcases h with ⟨b, c, rfl, rfl⟩ | ⟨e, rfl, rfl⟩
  · exact hfg b c
  · exact .inr ⟨e, rfl, rfl⟩

theorem endAlike_heading {id : Option ℕ} {summary summary' comment comment' : String} :
    EndAlike (Plan.heading id summary comment)
      (Plan.heading (id.map fun _ => 0) summary' comment') := by
  cases id with
  | none => exact .inr ⟨_, rfl, rfl⟩
  | some n => exact .ok

section Lines

variable (d : Dialect) (shown : Depth)

mutual

/-- A plan can be listed if its outline can be. -/
theorem Plan.endAlike_lines : ∀ (p : Plan) (depth : ℤ),
    EndAlike (p.lines d shown depth) (p.outline.lines d shown depth)
  | .null _ _, _ => endAlike_heading.bind fun _ _ => .ok
  | .log _ p, depth => endAlike_heading.bind fun _ _ =>
      (Plan.endAlike_lines p depth).bind fun _ _ => .ok
  | .softmax _ p, depth => endAlike_heading.bind fun _ _ =>
      (Plan.endAlike_lines p depth).bind fun _ _ => .ok
  | .sum _ ps, depth => endAlike_heading.bind fun _ _ =>
      (Plan.endAlike_linesAll ps depth).bind fun _ _ => .ok
  | .sequence _ _ _ ss _, depth => endAlike_heading.bind fun _ _ =>
      (Step.endAlike_linesAll ss depth).bind fun _ _ => .ok

theorem Plan.endAlike_linesAll : ∀ (ps : List Plan) (depth : ℤ),
    EndAlike (Plan.linesAll d shown ps depth) (Plan.linesAll d shown (Plan.relabelAll unnumbered ps) depth)
  | [], _ => .ok
  | p :: ps, depth => (Plan.endAlike_lines p depth).bind fun _ _ =>
      (Plan.endAlike_linesAll ps depth).bind fun _ _ => .ok

theorem Step.endAlike_lines : ∀ (s : Step) (depth : ℤ),
    EndAlike (s.lines d shown depth) (s.outline.lines d shown depth)
  | .act i _, _ => endAlike_heading.bind fun _ _ => .ok
  | .call i x m k p, depth => by
    refine endAlike_heading.bind fun _ _ => ?_
    cases shown.isExceededBy depth with
    | error e => exact .inr ⟨e, rfl, rfl⟩
    | ok exceeded =>
      cases exceeded with
      | true => exact .ok
      | false => exact (Plan.endAlike_lines p (depth + 1)).bind fun _ _ => .ok

theorem Step.endAlike_linesAll : ∀ (ss : List Step) (depth : ℤ),
    EndAlike (Step.linesAll d shown ss depth) (Step.linesAll d shown (Step.relabelAll unnumbered ss) depth)
  | [], _ => .ok
  | s :: ss, depth => (Step.endAlike_lines s depth).bind fun _ _ =>
      (Step.endAlike_linesAll ss depth).bind fun _ _ => .ok

end

end Lines

namespace Run

variable {α σ β γ : Type} {s : Settings α}

/-- Runs that end with one result, or fail alike. -/
abbrev AnswersAlike (s : Settings α) (x y : Run α σ β) : Prop :=
  Twins s Error.Alike Anything Anything x y

theorem anything (a b : σ) (_ : Anything a b) : Anything a b := trivial

theorem AnswersAlike.of_ends {x y : Run α σ β} {b : β} (hx : Ends s x b) (hy : Ends s y b) :
    AnswersAlike s x y := by
  rintro t u ⟨ht, hu, -⟩
  obtain ⟨t', hx, ht'⟩ := hx t ht
  obtain ⟨u', hy, hu'⟩ := hy u hu
  exact .inl ⟨b, t', b, u', hx, hy, rfl, ht', hu', trivial⟩

theorem answersAlike_lift {x : Except Error β} {y : Except Error γ} {f : β → Run α σ σ'}
    {g : γ → Run α σ σ'} (h : EndAlike x y) (hfg : ∀ b c, AnswersAlike s (f b) (g c)) :
    AnswersAlike s (lift x >>= f) (lift y >>= g) := by
  rcases h with ⟨b, c, rfl, rfl⟩ | ⟨e, rfl, rfl⟩
  · exact hfg b c
  · exact (twins_fail anything e : AnswersAlike s (fail e : Run α σ σ') (fail e))

theorem answersAlike_requireId (id : Option ℕ) {f g : ℕ → Run α σ β}
    (hfg : ∀ m n, AnswersAlike s (f m) (g n)) :
    AnswersAlike s (requireId id >>= f) (requireId (id.map fun _ => 0) >>= g) := by
  cases id with
  | none => exact (twins_fail anything _ : AnswersAlike s (fail _ : Run α σ β) (fail _))
  | some n => exact hfg n 0

theorem answersAlike_changeCell (m n : ℕ) (f g : Cell α → Cell α) :
    AnswersAlike s (changeCell m f) (changeCell n g) := twins_update fun _ _ _ => trivial

theorem answersAlike_planLines (p : Plan) {f g : List String → Run α σ β}
    (hfg : ∀ lines lines', AnswersAlike s (f lines) (g lines')) :
    AnswersAlike s (planLines p >>= f) (planLines p.outline >>= g) := by
  have hlines (p : Plan) (f : List String → Run α σ β) : planLines p >>= f =
      settings >>= fun s => lift (p.lines s.dialect s.shownDepth 0) >>= f := bind_assoc _ _ _
  rw [hlines, hlines]
  exact agree_settings (answersAlike_lift (p.endAlike_lines _ _ 0) hfg)

theorem answersAlike_tellPlan (what : String) (p : Plan) :
    AnswersAlike s (tellPlan what p : Evaluating α Unit) (tellPlan what p.outline) := by
  refine agree_settings (Agree.ite (fun _ => ?_) fun _ => same_pure)
  exact answersAlike_planLines p fun _ _ => twins_print

variable [Scalar α] {db : Database α}

theorem answersAlike_symbolsText (m : Matrix α) :
    AnswersAlike s (symbolsText db m : Evaluating α String) (symbolsText db m) :=
  (twins_lift anything _).bind_pure

theorem answersAlike_tellStored (m : Matrix α) :
    AnswersAlike s (tellStored db m) (tellStored db m) := by
  refine agree_settings (Agree.ite (fun _ => twins_print.bind fun _ => ?_) fun _ => same_pure)
  refine (twins_lift anything _).bind fun exceeded => ?_
  have hend (m : Matrix α) : AnswersAlike s
      (if s.traceMaxima = true then print ("max " ++ greatestText m ++ " ") >>= fun _ => say ""
        else say "" : Evaluating α Unit)
      (if s.traceMaxima = true then print ("max " ++ greatestText m ++ " ") >>= fun _ => say ""
        else say "") :=
    Agree.ite (fun _ => twins_print.bind fun _ => twins_print) fun _ => twins_print
  exact Agree.ite (fun _ => (answersAlike_symbolsText m).bind fun _ => twins_print.bind
    fun _ => hend m) fun _ => hend m

theorem answersAlike_tellValues (inputs : List (Matrix α)) (m : Matrix α) :
    AnswersAlike s (tellValues db inputs m) (tellValues db inputs m) := by
  refine agree_settings (Agree.ite (fun _ => Same.bind (same_forIn fun x _ => ?_) fun _ => ?_)
    fun _ => same_pure)
  · exact (answersAlike_symbolsText x.1).bind fun _ => twins_print.bind_pure
  · exact (answersAlike_symbolsText m).bind fun _ => twins_print

theorem answersAlike_invoked {p : Plan} {inputs : List (Matrix α)} {x y : Evaluating α (Matrix α)}
    (hid : p.outline.id? = p.id?.map fun _ => 0) (h : AnswersAlike s x y) :
    AnswersAlike s (invoked db p inputs x) (invoked db p.outline inputs y) := by
  refine (answersAlike_tellPlan _ p).bind fun _ => h.bind fun m => ?_
  rw [hid]
  refine answersAlike_requireId p.id? fun k l => (answersAlike_changeCell k l _ _).bind fun _ => ?_
  exact (answersAlike_tellPlan _ p).bind fun _ => (answersAlike_tellValues inputs m).bind_pure

theorem answersAlike_evaluated {st : Step} {x y : Evaluating α (Bindings α)}
    (h : AnswersAlike s x y) :
    AnswersAlike s (evaluated db st x) (evaluated db st.outline y) := by
  have htarget : st.outline.target = st.target := by cases st <;> rfl
  have hid : st.outline.info.id = st.info.id.map fun _ => 0 := by cases st <;> rfl
  refine Same.bind (AnswersAlike.of_ends (ends_tellStep _) (ends_tellStep _)) fun _ =>
    h.bind fun b => ?_
  rw [htarget, hid]
  refine (twins_lift anything _).bind fun m => answersAlike_requireId _ fun k l => ?_
  refine (answersAlike_changeCell k l _ _).bind fun _ => (answersAlike_tellStored m).bind fun _ => ?_
  refine Same.bind ?_ fun _ => same_pure
  unfold checkStored
  rw [htarget]
  refine agree_settings (Agree.ite (fun _ => ?_) fun _ => same_pure)
  exact agree_settings (Agree.ite (fun _ => twins_require anything _ _) fun _ => same_pure)

/-- The value of an action does not depend on a type. -/
theorem answersAlike_action {symbols : Symbols} (hdb : db.schema = .untyped symbols)
    (b : Bindings α) (a : Action) (type type' : Option String) :
    AnswersAlike s (lift (a.eval s db b type) : Evaluating α (Matrix α))
      (lift (a.eval s db b type')) := by
  cases a with
  | oneHot mode constant =>
    rcases db.oneHot_untyped hdb constant type type' with h | ⟨t, t', h, h'⟩
    · simp only [Action.eval, h]
      exact twins_lift anything _
    · simp only [Action.eval, h, h']
      exact agree_throw fun _ _ htu => ⟨.inr ⟨constant, t, t', rfl, rfl⟩, htu.1, htu.2.1, trivial⟩
  | _ => exact twins_lift anything _

theorem answersAlike_softmax (m : Matrix α) :
    AnswersAlike s (Run.softmax m : Evaluating α (Matrix α)) (Run.softmax m) :=
  agree_settings ((twins_lift anything _).bind fun _ =>
    Same.bind (AnswersAlike.of_ends ends_reportCopy ends_reportCopy) fun _ => twins_lift anything _)

end Run

section Outline

variable {α : Type} [Scalar α] {s : Settings α} {db : Database α} {symbols : Symbols}

mutual

theorem Plan.answersAlike_outline (hdb : db.schema = .untyped symbols) (inputs : List (Matrix α)) :
    ∀ p : Plan, AnswersAlike s (p.eval db inputs) (p.outline.eval db inputs)
  | .null i m => by
    refine answersAlike_invoked rfl ?_
    cases inputs with
    | nil => exact twins_fail anything _
    | cons x xs =>
      simp only [db.zeros_untyped hdb]
      exact twins_lift anything _
  | .log i p => by
    refine answersAlike_invoked rfl ?_
    exact (Plan.answersAlike_outline hdb inputs p).bind fun m => twins_lift anything _
  | .softmax i p => by
    refine answersAlike_invoked rfl ?_
    exact (Plan.answersAlike_outline hdb inputs p).bind answersAlike_softmax
  | .sum i ps => by
    refine answersAlike_invoked rfl ?_
    refine (Plan.answersAlike_outlineAll hdb inputs ps).bind fun ms => ?_
    cases ms with
    | nil => exact twins_fail anything _
    | cons m ms => exact twins_lift anything _
  | .sequence i xs y ss r => by
    refine answersAlike_invoked rfl (answersAlike_requireId i.id fun k l => ?_)
    refine (twins_require anything _ _).bind fun _ => ?_
    refine (Step.answersAlike_outlineAll hdb ss _).bind fun b => ?_
    exact (answersAlike_changeCell k l _ _).bind fun _ => twins_lift anything _

theorem Plan.answersAlike_outlineAll (hdb : db.schema = .untyped symbols)
    (inputs : List (Matrix α)) : ∀ ps : List Plan,
    AnswersAlike s (Plan.evalAll db inputs ps) (Plan.evalAll db inputs (Plan.relabelAll unnumbered ps))
  | [] => same_pure
  | p :: ps => (Plan.answersAlike_outline hdb inputs p).bind fun _ =>
      (Plan.answersAlike_outlineAll hdb inputs ps).bind_pure

theorem Step.answersAlike_outline (hdb : db.schema = .untyped symbols) : ∀ (st : Step)
    (b : Bindings α), AnswersAlike s (st.eval db b) (st.outline.eval db b)
  | .act i a, b => by
    refine answersAlike_evaluated ?_
    refine Same.bind (AnswersAlike.of_ends (ends_reportAction b a) (ends_reportAction b a)) fun _ =>
      agree_settings ((answersAlike_action hdb b a i.type none).bind_pure)
  | .call i x m d p, b => by
    refine answersAlike_evaluated ((twins_lift anything _).bind fun source => ?_)
    exact (Plan.answersAlike_outline hdb [source] p).bind_pure

theorem Step.answersAlike_outlineAll (hdb : db.schema = .untyped symbols) : ∀ (ss : List Step)
    (b : Bindings α), AnswersAlike s (Step.evalAll db ss b) (Step.evalAll db (Step.relabelAll unnumbered ss) b)
  | [], _ => same_pure
  | st :: ss, b => (Step.answersAlike_outline hdb st b).bind fun b' =>
      Step.answersAlike_outlineAll hdb ss b'

end

/-- Plans with the same outline have the same answers, or fail alike. -/
theorem Plan.answersAlike_of_outline {p q : Plan} (hdb : db.schema = .untyped symbols)
    (h : q.outline = p.outline) (inputs : List (Matrix α)) :
    AnswersAlike s (p.eval db inputs) (q.eval db inputs) := by
  intro t u htu
  have hleft := Plan.answersAlike_outline (s := s) hdb inputs p
  have hright := Plan.answersAlike_outline (s := s) hdb inputs q
  rw [h] at hright
  rcases hleft.through hright htu ⟨htu.2.1, htu.2.1, trivial⟩ with
    ⟨m, t', m', u', hm, hm', _, _, ⟨rfl, ht, -⟩, rfl, hu, -⟩ |
    ⟨e, t', f, u', he, hf, _, _, ⟨halike, ht, -⟩, halike', hu, -⟩
  · exact .inl ⟨_, t', _, u', hm, hm', rfl, ht, hu, trivial⟩
  · exact .inr ⟨e, t', f, u', he, hf, halike.trans_symm halike', ht, hu, trivial⟩

mutual

theorem Plan.nesting_outline : ∀ p : Plan, p.outline.nesting = p.nesting
  | .null _ _ => rfl
  | .log _ p => congrArg (· + 2) (Plan.nesting_outline p)
  | .softmax _ p => congrArg (· + 2) (Plan.nesting_outline p)
  | .sum _ ps => congrArg (· + 2) (Plan.nestingOfAll_outlineAll ps)
  | .sequence _ _ _ ss _ => congrArg (· + 2) (Step.nestingOfAll_outlineAll ss)

theorem Plan.nestingOfAll_outlineAll : ∀ ps : List Plan,
    Plan.nestingOfAll (Plan.relabelAll unnumbered ps) = Plan.nestingOfAll ps
  | [] => rfl
  | p :: ps => congrArg₂ max (Plan.nesting_outline p) (Plan.nestingOfAll_outlineAll ps)

theorem Step.nesting_outline : ∀ st : Step, st.outline.nesting = st.nesting
  | .act _ _ => rfl
  | .call _ _ _ _ p => congrArg (· + 2) (Plan.nesting_outline p)

theorem Step.nestingOfAll_outlineAll : ∀ ss : List Step,
    Step.nestingOfAll (Step.relabelAll unnumbered ss) = Step.nestingOfAll ss
  | [] => rfl
  | st :: ss => congrArg₂ max (Step.nesting_outline st) (Step.nestingOfAll_outlineAll ss)

end

end Outline

/-- The plan looked up for a call is the one called, up to numbers and notes. -/
def Finds (body : Mode → ℤ → Option Plan) (m : Mode) (d : ℤ) (q : Plan) : Prop :=
  ∃ k, body m d = some k ∧ k.bare = q.bare

section

variable {body : Mode → ℤ → Option Plan}

theorem Step.copy_bare {ss : List Step} (h : Step.EachCallsAll (Finds body) ss) :
    ∃ ts, ss.mapM (Step.copy body) = .ok ts ∧ Step.bareAll ts = Step.bareAll ss := by
  induction ss with
  | nil => exact ⟨[], rfl, rfl⟩
  | cons s ss ih =>
    obtain ⟨ts, hts, hbare⟩ := ih h.2
    cases s with
    | act i a =>
      refine ⟨.act { target := i.target, type := a.copyType } a :: ts, ?_, ?_⟩
      · rw [List.mapM_cons, hts]
        rfl
      · rw [Step.bareAll, Step.bareAll, Step.bare, Step.bare, hbare]
    | call i x m d q =>
      obtain ⟨⟨k, hk, hkq⟩, -⟩ := h.1
      refine ⟨.call { target := i.target, type := k.outputType } x m d k :: ts, ?_, ?_⟩
      · rw [List.mapM_cons, Step.copy, hk, hts]
        rfl
      · rw [Step.bareAll, Step.bareAll, Step.bare, Step.bare, hkq, hbare]

mutual

/-- A plan can be copied if the plan of every call is found. -/
theorem Plan.copy_bare : ∀ p : Plan, p.CallsAll (Finds body) →
    ∃ c, p.copy body = .ok c ∧ c.bare = p.bare
  | .null _ m, _ => ⟨.null {} m, rfl, rfl⟩
  | .log _ p, h => by
    obtain ⟨c, hc, hbare⟩ := Plan.copy_bare p h
    exact ⟨c.logOf, by rw [Plan.copy, hc]; rfl, congrArg (Plan.log {}) hbare⟩
  | .softmax _ p, h => by
    obtain ⟨c, hc, hbare⟩ := Plan.copy_bare p h
    exact ⟨c.softmaxOf, by rw [Plan.copy, hc]; rfl, congrArg (Plan.softmax {}) hbare⟩
  | .sum _ ps, h => by
    obtain ⟨cs, hcs, hbare⟩ := Plan.copyAll_bare ps h
    exact ⟨.sumOf cs, by rw [Plan.copy, hcs]; rfl,
      (Plan.bare_sumOf cs).trans (congrArg (Plan.sum {}) hbare)⟩
  | .sequence i xs y _ r, h => by
    obtain ⟨ts, hts, hbare⟩ := Step.copy_bare h
    exact ⟨.sequence { i with id := none, copied := false } xs y ts r, by rw [Plan.copy, hts]; rfl,
      congrArg (Plan.sequence {} xs y · r) hbare⟩

theorem Plan.copyAll_bare : ∀ ps : List Plan, Plan.EachCallsAll (Finds body) ps →
    ∃ cs, Plan.copyAll body ps = .ok cs ∧ Plan.bareAll cs = Plan.bareAll ps
  | [], _ => ⟨[], rfl, rfl⟩
  | p :: ps, h => by
    obtain ⟨c, hc, hbare⟩ := Plan.copy_bare p h.1
    obtain ⟨cs, hcs, hall⟩ := Plan.copyAll_bare ps h.2
    exact ⟨c :: cs, by rw [Plan.copyAll, hc, hcs]; rfl, congrArg₂ List.cons hbare hall⟩

end

end

/-- A plan answers as another one once that is numbered. -/
def Plan.AnswersAs {α : Type} [Scalar α] (s : Settings α) (db : Database α) (q r : Plan) : Prop :=
  ∀ again n table inputs, AnswersAlike s (q.eval db inputs)
    (((Plan.number again r n).run table).1.1.eval db inputs)

end BeliefLogic
