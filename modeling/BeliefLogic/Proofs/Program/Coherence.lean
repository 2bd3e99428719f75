import BeliefLogic.Proofs.Plan.Alike

/-!
# Plans that were made before

Whatever was planned before, planning a query ends as on a new program: with a plan that is alike,
or the same failure. The modes in play must be told apart by how they are written.
-/

namespace BeliefLogic

open Outcome Run List Plan

variable {j : ℕ} {m : Mode} {body : List Goal} {schema : Option Schema}

/-- A goal is used in a mode: constants stand for themselves. -/
def Goal.UsedAs (g : Goal) (m : Mode) : Prop :=
  m.functor = g.functor ∧ Forall₂ (fun x a => a = "i" ∨ a = "o" ∨ a = x) g.args m.args

theorem usedAs_of_modeAt {G : List GoalFlow} {gs : List Goal} (h : modeAt G gs j = .ok m) :
    ∃ g, gs[j]? = some g ∧ g.UsedAs m := by
  obtain ⟨flow, -, h⟩ := then_ok.1 h
  cases hg : gs[j]? with
  | none => simp [hg] at h
  | some g =>
    simp only [hg] at h
    obtain ⟨args, hargs, h⟩ := then_ok.1 h
    obtain rfl := except_pure_ok.1 h
    refine ⟨g, rfl, rfl, (except_mapM_ok hargs).imp fun x a ha => ?_⟩
    unfold Flow.direction at ha
    split_ifs at ha
    · exact .inl (Except.ok.inj ha).symm
    · exact .inr (.inl (Except.ok.inj ha).symm)
    · exact .inr (.inr (Except.ok.inj ha).symm)

def Normalization.IsKnown (n : Normalization) : Prop := ∀ shown, n ≠ .unknown shown

/-- A program without plans, and modes told apart by their texts. -/
structure Origin (α : Type) where
  schema : Option Schema
  settings : Settings α
  program : Program
  modes : Mode → Prop
  fresh : program.plans = {}
  known : program.normalization.IsKnown
  apart : ∀ m m', modes m → modes m' → m.key = m'.key → m = m'
  calls : ∀ r ∈ program.theory.rules, ∀ g ∈ r.body, ∀ m, g.UsedAs m → program.defines m = true →
    modes m

namespace Origin

variable {α : Type} (o : Origin α) {mode : Mode} {fuel : ℕ} {q q' : Plan} {p : Program}
  {t u : Program × Analysis} {a : Analysis}

/-- A plan that is made where no plan is kept. -/
def Fresh (m : Mode) (d : ℤ) (q : Plan) : Prop :=
  ∃ w t fuel, w.settings = o.settings ∧ fuel + 3 * d.toNat = planningFuel o.program 0 ∧
    planAt o.schema fuel m d (w, o.program) = .ok q t

/-- A called plan alike to one made where no plan is kept. -/
structure Right (m : Mode) (d : ℤ) (q : Plan) : Prop where
  pos : 0 < d
  untyped : q.NullUntyped
  made : ∃ m' q', m'.key = m.key ∧ o.modes m' ∧ o.Fresh m' d q' ∧ q.Alike q'

/-- A query plan with the outline of one made where no plan is kept. -/
def RightQuery (m : Mode) (q : Plan) : Prop :=
  ∃ m' q', m'.key = m.key ∧ o.modes m' ∧ o.Fresh m' 0 q' ∧ q.Alike q' ∧ q'.outline = q.outline

theorem numberStable_right : NumberStable o.Right where
  pos _ _ _ h := h.pos
  number _ _ q copying n table h := by
    obtain ⟨m', q', hkey, hm', hfresh, halike⟩ := h.made
    exact ⟨h.pos, h.untyped.number copying n table, m', q', hkey, hm', hfresh,
      (alike_number h.untyped copying n table).symm.trans halike⟩
  key _ _ _ _ hkey h := by
    obtain ⟨m', q', hm, rest⟩ := h.made
    exact ⟨h.pos, h.untyped, m', q', hm.trans hkey, rest⟩

/-- A program on which queries were planned, with plans known as kept. -/
structure Coherent (H : Mode → ℤ → Prop) (p : Program) : Prop where
  alike : o.program.Alike p
  entries : PlanTable.Entries o.Right p.plans
  queries : ∀ m q, p.plan? m 0 = some q → o.RightQuery m q
  has : HasPlans H p

/-- Two programs on which queries were planned. -/
def Both (H : Mode → ℤ → Prop) (p p' : Program) : Prop := o.Coherent H p ∧ o.Coherent H p'

def Nothing (_ : Mode) (_ : ℤ) : Prop := False

variable {o}

theorem Coherent.mono {H H' : Mode → ℤ → Prop} (h : o.Coherent H p) (hH : ∀ m d, H' m d → H m d) :
    o.Coherent H' p :=
  ⟨h.alike, h.entries, h.queries, fun m d hm => h.has m d (hH m d hm)⟩

theorem coherent_of_fresh (halike : o.program.Alike p) (hfresh : p.plans = {}) :
    o.Coherent Nothing p := by
  refine ⟨halike, fun m d q _ hq => ?_, fun m q hq => ?_, fun _ _ h => h.elim⟩
  · simp [hfresh, Dictionary.get?, Dictionary.lookup] at hq
  · simp [Program.plan?, hfresh, Dictionary.get?, Dictionary.lookup] at hq

theorem coherent_program : o.Coherent Nothing o.program := coherent_of_fresh (.refl _) o.fresh

/-- The modes of goals that are marked as defined. -/
def Marked (G : List GoalFlow) (gs : List Goal) (d : ℤ) (m : Mode) (e : ℤ) : Prop :=
  e = d + 1 ∧ ∃ j g, G[j]? = some g ∧ g.defined = true ∧ modeAt G gs j = .ok m

/-- Analyses before steps are emitted. Some plans are known to be kept. -/
structure Prepared (o : Origin α) (d : ℤ) (gs : List Goal) (G : List GoalFlow)
    (H : Mode → ℤ → Prop) (t u : Program × Analysis) : Prop where
  programs : o.Both H t.1 u.1
  depth : t.2.depth = d ∧ u.2.depth = d
  rule : u.2.rule = t.2.rule
  result : u.2.result = t.2.result
  twin : Emission.Twin o.Right G gs t.2.emission u.2.emission

/-- Programs with analyses, of which only the programs matter. -/
def Programs (o : Origin α) (t u : Program × Analysis) : Prop := o.Both Nothing t.1 u.1

variable {d : ℤ} {gs : List Goal} {G : List GoalFlow} {H : Mode → ℤ → Prop}

/-- Analyses that go on alike before steps are emitted. -/
abbrev Prepares (o : Origin α) (d : ℤ) (gs : List Goal) (G : List GoalFlow) (H : Mode → ℤ → Prop)
    {β : Type} (x y : Analysing α β) : Prop :=
  Twins o.settings Eq (o.Prepared d gs G H) o.Programs x y

/-- From related states to related states, or fails alike. -/
abbrev Leads (o : Origin α) (T T' : Program × Analysis → Program × Analysis → Prop)
    (x : Analysing α Unit) : Prop :=
  Agree (Beside o.settings T) x x (fun _ t _ u => Beside o.settings T' t u)
    (FailsAlike o.settings Eq o.Programs)

theorem Both.forget {p' : Program} (h : o.Both H p p') : o.Both Nothing p p' :=
  ⟨h.1.mono fun _ _ => False.elim, h.2.mono fun _ _ => False.elim⟩

theorem Prepared.forget (t u : Program × Analysis) (h : o.Prepared d gs G H t u) :
    o.Programs t u := h.programs.forget

theorem Prepared.flow (h : o.Prepared d gs G H t u) :
    u.2.flow = t.2.flow := h.twin.flow

theorem Prepared.goals (h : o.Prepared d gs G H t u) :
    t.2.goals = gs ∧ u.2.goals = gs := h.twin.goals

theorem agree_analysis {T : Program × Analysis → Program × Analysis → Prop} {β γ : Type}
    {f : Analysis → Analysing α β} {g : Analysis → Analysing α γ}
    {Q : β → World α × (Program × Analysis) → γ → World α × (Program × Analysis) → Prop}
    {F : Error → World α × (Program × Analysis) → Error → World α × (Program × Analysis) → Prop}
    {s : Settings α} (h : ∀ t u, T t u → Agree (Beside s T) (f t.2) (g u.2) Q F) :
    Agree (Beside s T) (analysis >>= f) (analysis >>= g) Q F :=
  fun t u htu => h t.2 u.2 htu.2.2 t u htu

theorem prepares_analysis {β : Type} {f g : Analysis → Analysing α β}
    (h : ∀ t u, o.Prepared d gs G H t u → o.Prepares d gs G H (f t.2) (g u.2)) :
    o.Prepares d gs G H (analysis >>= f) (analysis >>= g) := agree_analysis h

theorem prepares_noteType (v : String) (type : Option String) :
    o.Prepares d gs G H (noteType v type) (noteType v type) := by
  refine prepares_analysis fun t u htu => ?_
  rw [htu.flow]
  refine agree_lift (fun f hset => twins_update fun t' u' h => ?_) fun e _ t u h =>
    ⟨rfl, h.1, h.2.1, h.2.2.programs.forget⟩
  obtain ⟨-, hgoals⟩ := Flow.setType_ok hset
  exact ⟨h.programs, h.depth, h.rule, h.result,
    ⟨rfl, hgoals.trans htu.twin.marks, h.twin.goals, h.twin.types, h.twin.steps, h.twin.calls⟩⟩

theorem prepares_warnOfTypes (v : String) (old new : Option String) :
    o.Prepares d gs G H (warnOfTypes v old new) (warnOfTypes v old new) := by
  refine Agree.ite (fun _ => ?_) fun _ => same_pure
  exact prepares_analysis fun _ _ _ => agree_settings (twins_note _ _ _ _)

theorem prepares_inferArgument (schema : Option Schema) (goal : Goal) (v : String) (i : ℕ) :
    o.Prepares d gs G H (inferArgument schema goal v i) (inferArgument schema goal v i) := by
  cases schema with
  | none => exact twins_fail Prepared.forget _
  | some schema =>
    refine (twins_lift Prepared.forget _).bind fun new => prepares_analysis fun t u htu => ?_
    rw [htu.flow]
    refine (twins_lift Prepared.forget _).bind fun old => Agree.ite (fun _ => ?_) fun _ => same_pure
    exact (prepares_warnOfTypes v old.type new).bind fun _ => prepares_noteType v new

theorem prepares_inferOutput (plugins : Plugins) (mode : Mode) (j : ℕ) (v : String) (i : ℕ) :
    o.Prepares d gs G H (inferOutput plugins mode j v i) (inferOutput plugins mode j v i) := by
  refine Agree.ite (fun _ => ?_) fun _ => same_pure
  refine prepares_analysis fun t u htu => ?_
  have htypes : u.2.inputTypes j = t.2.inputTypes j := by
    simp [Analysis.inputTypes, htu.flow, htu.goals.1, htu.goals.2]
  rw [htypes]
  exact (twins_lift Prepared.forget _).bind fun _ => prepares_noteType v _

theorem prepares_inferGoal (schema : Option Schema) (goal : Goal) (j : ℕ) :
    o.Prepares d gs G H (inferGoal schema goal j) (inferGoal schema goal j) := by
  refine agree_state fun t u htu => ?_
  have hleft := htu.programs.1.alike
  have hright := htu.programs.2.alike
  have hmode : u.2.flow.modeOf u.2.goals j = t.2.flow.modeOf t.2.goals j := by
    rw [htu.flow, htu.goals.1, htu.goals.2]
  change o.Prepares d gs G H _ _
  simp only [hmode, hleft.plugins, hright.plugins, hleft.defines_eq, hright.defines_eq]
  refine (twins_lift Prepared.forget _).bind fun mode => ?_
  refine Agree.ite (fun _ => ?_) fun _ => Agree.ite (fun _ => ?_) fun _ => Agree.ite (fun _ => ?_)
    fun _ => same_pure
  · exact same_forM fun e _ => prepares_inferOutput _ mode j e.1 e.2
  · exact prepares_noteType _ _
  · exact same_forM fun e _ => prepares_inferArgument schema goal e.1 e.2

theorem prepares_inferTypes (schema : Option Schema) :
    o.Prepares d gs G H (inferTypes schema) (inferTypes schema) := by
  refine prepares_analysis fun t u htu => ?_
  rw [htu.goals.1, htu.goals.2]
  exact same_forM fun e _ => prepares_inferGoal schema e.1 e.2

/-- The types of plans that are alike are noted. -/
theorem prepares_noteCallTypes (j : ℕ) (h : q.Alike q') :
    o.Prepares d gs G H (noteCallTypes j q) (noteCallTypes j q') := by
  simp only [noteCallTypes, h.inputTypes, h.outputType]
  cases q.inputTypes with
  | none => exact same_pure
  | some types =>
    refine prepares_analysis fun t u htu => ?_
    rw [htu.flow]
    refine (twins_lift Prepared.forget _).bind fun g => Same.bind ?_ fun _ => ?_
    · exact same_forM fun e _ => prepares_noteType e.1 e.2
    · exact (twins_lift Prepared.forget _).bind fun y => prepares_noteType y _

/-- Analyses in which the plans of all goals that are marked are kept. -/
def Ready (o : Origin α) (d : ℤ) (gs : List Goal) (t u : Program × Analysis) : Prop :=
  ∃ G, G.length = gs.length ∧ o.Prepared d gs G (Marked G gs d) t u

/-- Planning a mode at a depth ends alike, and its plan is kept. -/
def PlansAlike (o : Origin α) (plan : Mode → ℤ → Run α Program Plan) (d : ℤ) : Prop :=
  ∀ (H : Mode → ℤ → Prop) (m : Mode), o.modes m →
    Agree (Beside o.settings (o.Both H)) (plan m d) (plan m d)
      (fun q t q' u => q.Alike q' ∧
        Beside o.settings (o.Both fun m' e => H m' e ∨ m' = m ∧ e = d) t u)
      (FailsAlike o.settings Eq (o.Both Nothing))

/-- Marking a goal adds its mode to those that are marked. -/
theorem Marked.of_mark {e : ℤ} (hmode : modeAt G gs j = .ok mode)
    (h : Marked (G.modify j fun g => { g with defined := true }) gs d m e) :
    Marked G gs d m e ∨ m = mode ∧ e = d + 1 := by
  obtain ⟨rfl, i, g, hg, hdefined, hm⟩ := h
  obtain ⟨halike, hmark⟩ := Flow.mark_alike { goals := G } j
  have hsame : modeAt (G.modify j fun g => { g with defined := true }) gs i = modeAt G gs i :=
    halike.modeOf_eq gs i
  rw [hsame] at hm
  by_cases hij : i = j
  · subst hij
    rw [hmode] at hm
    exact .inr ⟨(Except.ok.inj hm).symm, rfl⟩
  · rw [getElem?_modify] at hg
    obtain ⟨g', hg', rfl⟩ := Option.map_eq_some_iff.1 hg
    rw [if_neg (Ne.symm hij)] at hdefined
    exact .inl ⟨rfl, i, g', hg', hdefined, hm⟩

variable {plan : Mode → ℤ → Run α Program Plan}

/-- A call is planned, if rules define its goal. -/
theorem leads_planCall (hplan : o.PlansAlike plan (d + 1))
    (hplay : ∀ m, (∃ g, gs[j]? = some g ∧ g.UsedAs m) → o.program.defines m = true → o.modes m) :
    o.Leads (o.Ready d gs) (o.Ready d gs) (planCall plan j) := by
  rintro t u ⟨hs, hs', G, hlength, hprepared⟩
  refine (?_ : o.Leads (o.Prepared d gs G (Marked G gs d)) (o.Ready d gs) (planCall plan j)) t u
    ⟨hs, hs', hprepared⟩
  refine agree_state fun t u htu => ?_
  have hmode : t.2.flow.modeOf t.2.goals j = modeAt G gs j := by
    rw [htu.goals.1, ← htu.twin.marks]
    rfl
  have hmode' : u.2.flow.modeOf u.2.goals j = modeAt G gs j := by
    rw [htu.goals.2, htu.flow, ← htu.twin.marks]
    rfl
  simp only [hmode, hmode', htu.programs.1.alike.defines_eq, htu.programs.2.alike.defines_eq,
    htu.depth.1, htu.depth.2]
  refine agree_lift (fun mode hmode => ?_) fun e _ t u htu =>
    ⟨rfl, htu.1, htu.2.1, htu.2.2.programs.forget⟩
  refine Agree.ite (fun hdefines => ?_) fun _ => agree_pure fun t u htu =>
    ⟨htu.1, htu.2.1, G, hlength, htu.2.2⟩
  set G' := G.modify j fun g => { g with defined := true }
  have hlength' : G'.length = gs.length := by simp [G', hlength]
  -- The goal is marked before its plan is there.
  have hmark : o.Leads (o.Prepared d gs G (Marked G gs d)) (o.Prepared d gs G' (Marked G gs d))
      (markDefined j) := by
    refine agree_update ?_
    rintro ⟨p, a⟩ ⟨q, b⟩ htu
    have htwin := htu.twin
    have hflow : b.flow = a.flow := htu.flow
    have hmarks : a.flow.goals = G := htwin.marks
    refine ⟨htu.programs, htu.depth, htu.rule, htu.result, ?_⟩
    refine ⟨?_, ?_, htwin.goals, htwin.types, htwin.steps, htwin.calls⟩
    · simp [Analysis.setFlow, hflow]
    · simp [Analysis.setFlow, hmarks, G']
  have hcalled : Agree (Beside o.settings (o.Prepared d gs G' (Marked G gs d)))
      (focus (fun s : Program × Analysis => s.1) (fun p s => (p, s.2)) (plan mode (d + 1)))
      (focus (fun s : Program × Analysis => s.1) (fun p s => (p, s.2)) (plan mode (d + 1)))
      (fun q t q' u => q.Alike q' ∧
        Beside o.settings (o.Prepared d gs G' (Marked G' gs d)) t u)
      (FailsAlike o.settings Eq o.Programs) := by
    refine (hplan (Marked G gs d) mode (hplay mode (usedAs_of_modeAt hmode) hdefines)).taken
      (focus_eq _ _ _) (focus_eq _ _ _) ?_ ?_ ?_
    · exact fun t u htu => ⟨htu.1, htu.2.1, htu.2.2.programs⟩
    · rintro t u htu q v q' v' ⟨halike, hv, hv', hcoherent, hcoherent'⟩
      have hmarked : ∀ m e, Marked G' gs d m e → Marked G gs d m e ∨ m = mode ∧ e = d + 1 :=
        fun m e h => h.of_mark hmode
      exact ⟨halike, hv, hv', ⟨⟨hcoherent.mono hmarked, hcoherent'.mono hmarked⟩,
        htu.2.2.depth, htu.2.2.rule, htu.2.2.result, htu.2.2.twin⟩⟩
    · exact fun t u htu e v f v' hfail => hfail
  refine hmark.bind fun _ _ => hcalled.bind fun q q' => ?_
  rintro t u ⟨halike, htu⟩
  exact (prepares_noteCallTypes j halike).mono (fun _ _ => id)
    (fun _ t _ u h => ⟨h.2.1, h.2.2.1, G', hlength', h.2.2.2⟩) (fun _ _ _ _ => id) t u htu

theorem leads_planCalls (hplan : o.PlansAlike plan (d + 1))
    (hplay : ∀ j m, 0 < j → (∃ g, gs[j]? = some g ∧ g.UsedAs m) → o.program.defines m = true →
      o.modes m) :
    o.Leads (o.Ready d gs) (o.Ready d gs) (planCalls plan) := by
  intro t u htu
  obtain ⟨G, -, hprepared⟩ := htu.2.2
  have hcalls : o.Leads (o.Ready d gs) (o.Ready d gs)
      ((List.range gs.length).tail.forM (planCall plan)) := by
    refine agree_forM (S := fun _ => Beside o.settings (o.Ready d gs)) fun done j rest hsplit => ?_
    have hj : j ∈ (List.range gs.length).tail := by simp [hsplit]
    have hpos : 0 < j := by
      cases hgs : gs.length with
      | zero => simp [hgs] at hj
      | succ n =>
        rw [hgs, range_succ_eq_map] at hj
        obtain ⟨i, -, rfl⟩ := mem_map.1 hj
        omega
    exact leads_planCall hplan fun m => hplay j m hpos
  have hleft : planCalls plan t = (List.range gs.length).tail.forM (planCall plan) t := by
    change ((List.range t.2.2.goals.length).tail.forM (planCall plan)) t = _
    rw [hprepared.goals.1]
  have hright : planCalls plan u = (List.range gs.length).tail.forM (planCall plan) u := by
    change ((List.range u.2.2.goals.length).tail.forM (planCall plan)) u = _
    rw [hprepared.goals.2]
  rw [hleft, hright]
  exact hcalls t u htu

/-- Programs with the same analysis, before it starts. -/
def Starts (o : Origin α) (a : Analysis) (t u : Program × Analysis) : Prop :=
  o.Both Nothing t.1 u.1 ∧ t.2 = a ∧ u.2 = a

structure Emitted (o : Origin α) (t u : Program × Analysis) : Prop where
  programs : o.Both Nothing t.1 u.1
  rule : u.2.rule = t.2.rule
  result : u.2.result = t.2.result
  twin : ∃ G gs, Emission.Twin o.Right G gs t.2.emission u.2.emission

theorem leads_inferFlow {head : Goal} (hgoals : a.goals = head :: body)
    (hsteps : a.emission.steps = []) :
    o.Leads (o.Starts a) (o.Ready a.depth (head :: body)) inferFlow := by
  refine agree_analysis fun t u htu => ?_
  rw [htu.2.1, htu.2.2, hgoals]
  cases hflow : Flow.ofGoals a.mode (head :: body) with
  | error e =>
    refine Agree.bind
      (agree_update ?_) fun _ _ => agree_throw fun t u htu => ⟨rfl, htu⟩
    exact fun _ _ htu => htu.1
  | ok flow =>
    have hwired := Flow.wired_ofGoals hflow
    have hstarted : o.Leads (o.Starts a) (o.Ready a.depth (head :: body))
        (setAnalysis { a.setFlow flow with started := true }) := by
      refine agree_update ?_
      rintro t u ⟨hprograms, -, -⟩
      -- No goal is marked yet.
      have hunmarked : ∀ m e, Marked flow.goals (head :: body) a.depth m e → Nothing m e := by
        rintro m e ⟨-, j, g, hg, hdefined, -⟩
        rw [hwired.unmarked g (mem_of_getElem? hg)] at hdefined
        cases hdefined
      have hcalls : Step.EachCallsAll o.Right a.emission.steps := by
        rw [hsteps]
        trivial
      exact ⟨flow.goals, hwired.length, ⟨hprograms.1.mono hunmarked, hprograms.2.mono hunmarked⟩,
        ⟨rfl, rfl⟩, rfl, rfl, ⟨rfl, rfl, ⟨hgoals, hgoals⟩, rfl, rfl, hcalls, hcalls⟩⟩
    refine hstarted.bind fun _ _ => agree_settings ?_
    refine Agree.mono (twins_lift ?_ _) (fun _ _ => id) (fun _ _ _ _ h => h.2) fun _ _ _ _ => id
    rintro t u ⟨G, -, hprepared⟩
    exact hprepared.forget

theorem agree_keepEmission {T T' T'' : Program × Analysis → Program × Analysis → Prop}
    {e e' : Emission}
    (h : ∀ t u, T t u → T' (t.1, { t.2 with emission := { e with trace := [] } })
      (u.1, { u.2 with emission := { e' with trace := [] } })) :
    Agree (Beside o.settings T) (keepEmission e) (keepEmission e')
      (fun _ t _ u => Beside o.settings T' t u) (FailsAlike o.settings Eq T'') := by
  refine agree_settings (Agree.ite (fun _ => ?_) fun _ => agree_update h)
  refine Agree.bind (twins_sayAll _ _) fun _ _ => ?_
  exact Agree.mono (agree_update h) (fun _ _ h => h.2) (fun _ _ _ _ => id) fun _ _ _ _ => id

/-- Plans that are made where no plan is kept are alike. -/
def Unique (o : Origin α) (e : ℤ) : Prop :=
  ∀ m q q', o.modes m → o.Fresh m e q → o.Fresh m e q' → q.Alike q'

theorem Right.alike {e : ℤ} {x y : Plan} (hunique : o.Unique e) (hx : o.Right m e x)
    (hy : o.Right m e y) : x.Alike y := by
  obtain ⟨m1, q1, hkey1, hm1, hfresh1, halike1⟩ := hx.made
  obtain ⟨m2, q2, hkey2, hm2, hfresh2, halike2⟩ := hy.made
  obtain rfl : m1 = m2 := o.apart m1 m2 hm1 hm2 (hkey1.trans hkey2.symm)
  exact halike1.trans ((hunique m1 q1 q2 hm1 hfresh1 hfresh2).trans halike2.symm)

/-- The plans of calls that are kept are found, and are alike. -/
theorem serves_of_marked {q : Program} {dialect : Dialect} (hd : 0 ≤ d) (hunique : o.Unique (d + 1))
    (h : o.Both (Marked G gs d) p q) (ha : a.depth = d) :
    (messaging p a dialect).Serves o.Right (fun mode => q.plan? mode (d + 1)) G gs := by
  intro j g m hg hdefined hmode
  have hmarked : Marked G gs d m (d + 1) := ⟨rfl, j, g, hg, hdefined, hmode⟩
  obtain ⟨x, hx⟩ := Option.isSome_iff_exists.1 (h.1.has m (d + 1) hmarked)
  obtain ⟨y, hy⟩ := Option.isSome_iff_exists.1 (h.2.has m (d + 1) hmarked)
  have hright := h.1.entries m (d + 1) x (by omega) hx
  have hright' := h.2.entries m (d + 1) y (by omega) hy
  subst ha
  exact ⟨x, y, hx, hy, hright.1.alike hunique hright'.1, hright, hright'⟩

/-- Steps are emitted alike, up to the plans of calls. -/
theorem leads_emitSteps (hd : 0 ≤ d) (hunique : o.Unique (d + 1)) :
    o.Leads (o.Ready d gs) o.Emitted emitSteps := by
  rintro t u ⟨hs, hs', G, hlength, hprepared⟩
  refine (?_ : o.Leads (o.Prepared d gs G (Marked G gs d)) o.Emitted emitSteps) t u
    ⟨hs, hs', hprepared⟩
  refine agree_state fun t u htu => agree_settings ?_
  have hserves : (messaging t.1 t.2 o.settings.dialect).Serves o.Right
      (fun mode => u.1.plan? mode (d + 1)) G gs :=
    serves_of_marked hd hunique htu.programs htu.depth.1
  have hmessaging : messaging u.1 u.2 o.settings.dialect =
      { messaging t.1 t.2 o.settings.dialect with
        body := fun mode => u.1.plan? mode (d + 1) } := by
    simp [messaging, htu.rule, htu.depth.1, htu.depth.2, htu.programs.1.alike.plugins,
      htu.programs.2.alike.plugins]
  rw [hmessaging]
  rcases Messaging.agree_emit hserves hlength t.2.emission u.2.emission htu.twin with
    ⟨y, e, y', e', hleft, hright, rfl, htwin⟩ | ⟨err, e, err', e', hleft, hright, rfl⟩
  · simp only [EStateM.run, hleft, hright]
    refine Agree.bind (Q := fun _ t _ u => Beside o.settings o.Emitted t u)
      (agree_keepEmission fun t u htu => ?_) fun _ _ => ?_
    · exact ⟨htu.programs.forget, htu.rule, htu.result, _, _,
        ⟨htwin.flow, htwin.marks, htwin.goals, htwin.types, htwin.steps, htwin.calls⟩⟩
    · rw [htwin.flow]
      refine agree_lift (fun head _ => agree_update fun t u htu => ?_) fun e _ t u htu => ?_
      · exact ⟨htu.programs, htu.rule, rfl, htu.twin⟩
      · exact ⟨rfl, htu.1, htu.2.1, htu.2.2.programs⟩
  · simp only [EStateM.run, hleft, hright]
    refine Agree.bind
      (agree_keepEmission fun t u htu => ?_) fun _ _ => agree_throw fun t u htu => ⟨rfl, htu⟩
    exact htu.programs.forget

theorem Ready.emitted (h : o.Ready d gs t u) : o.Emitted t u := by
  obtain ⟨G, -, hprepared⟩ := h
  exact ⟨hprepared.programs.forget, hprepared.rule, hprepared.result, G, gs, hprepared.twin⟩

theorem bare_withType (s : Step) (type : Option String) : (s.withType type).bare = s.bare := by
  cases s <;> rfl

theorem eachCallsAll_withType {K : Mode → ℤ → Plan → Prop} {ss : List Step}
    (type : Step → Option String) (h : Step.EachCallsAll K ss) :
    Step.EachCallsAll K (ss.map fun s => s.withType (type s)) := by
  induction ss with
  | nil => trivial
  | cons s ss ih => exact ⟨by cases s <;> exact h.1, ih h.2⟩

theorem leads_typeSteps : o.Leads o.Emitted o.Emitted typeSteps := by
  refine agree_update ?_
  rintro ⟨p, a⟩ ⟨q, b⟩ ⟨hprograms, hrule, hresult, G, gs, htwin⟩
  refine ⟨hprograms, hrule, hresult, G, gs, htwin.flow, htwin.marks, htwin.goals, htwin.types, ?_,
    eachCallsAll_withType _ htwin.calls.1, eachCallsAll_withType _ htwin.calls.2⟩
  simp only [map_map, Function.comp_def, bare_withType]
  exact htwin.steps

theorem leads_analyse (hd : 0 ≤ d) (hplan : o.PlansAlike (planAt schema fuel) (d + 1))
    (hunique : o.Unique (d + 1)) {head : Goal} (hgoals : a.goals = head :: body)
    (hsteps : a.emission.steps = []) (hdepth : a.depth = d)
    (hplay : ∀ g ∈ body, ∀ m, g.UsedAs m → o.program.defines m = true → o.modes m) :
    o.Leads (o.Starts a) o.Emitted (analyse schema (fuel + 1)) := by
  subst hdepth
  have hcalls : ∀ j m, 0 < j → (∃ g, (head :: body)[j]? = some g ∧ g.UsedAs m) →
      o.program.defines m = true → o.modes m := by
    rintro j m hj ⟨g, hg, hused⟩
    obtain ⟨i, rfl⟩ : ∃ i, j = i + 1 := ⟨j - 1, by omega⟩
    exact hplay g (mem_of_getElem? hg) m hused
  have htypes : o.Leads (o.Ready a.depth (head :: body)) (o.Ready a.depth (head :: body))
      (inferTypes schema) := by
    rintro t u ⟨hs, hs', G, hlength, hprepared⟩
    exact (prepares_inferTypes schema).mono (fun _ _ => id)
      (fun _ t _ u h => ⟨h.2.1, h.2.2.1, G, hlength, h.2.2.2⟩) (fun _ _ _ _ => id) t u
      ⟨hs, hs', hprepared⟩
  have hemit : o.Leads (o.Ready a.depth (head :: body)) o.Emitted emitIfAsked := by
    refine agree_settings (Agree.ite (fun _ => leads_emitSteps hd hunique) fun _ => ?_)
    exact agree_pure fun t u htu => ⟨htu.1, htu.2.1, htu.2.2.emitted⟩
  refine (leads_inferFlow hgoals hsteps).bind fun _ _ => (leads_planCalls hplan hcalls).bind
    fun _ _ => htypes.bind fun _ _ => hemit.bind fun _ _ => leads_typeSteps.bind fun _ _ => ?_
  refine agree_update fun t u htu => ?_
  exact ⟨htu.programs, htu.rule, htu.result, htu.twin⟩

structure Made (o : Origin α) (q q' : Plan) : Prop where
  alike : q.Alike q'
  calls : q.CallsAll o.Right ∧ q'.CallsAll o.Right
  untyped : q.NullUntyped ∧ q'.NullUntyped

/-- The plans of analyses that went side by side. -/
theorem Emitted.made (h : o.Emitted t u) :
    (∃ q q', t.2.plan = .ok q ∧ u.2.plan = .ok q' ∧ o.Made q q') ∨
      ∃ e, t.2.plan = .error e ∧ u.2.plan = .error e := by
  obtain ⟨-, hrule, hresult, G, gs, htwin⟩ := h
  have hflow : u.2.flow = t.2.flow := htwin.flow
  simp only [Analysis.plan, hresult, hrule, hflow, htwin.types]
  rcases t.2.result with _ | ⟨output, inputs⟩
  · exact .inr ⟨_, rfl, rfl⟩
  dsimp only
  generalize (List.mapM _ inputs : Except Error (List (Option String))) = inputTypes
  generalize t.2.emission.types.get? output = outputType
  cases inputTypes with
  | error e => exact .inr ⟨e, rfl, rfl⟩
  | ok types =>
    cases outputType with
    | none => exact .inr ⟨_, rfl, rfl⟩
    | some type =>
      refine .inl ⟨_, _, rfl, rfl, ⟨?_, rfl, rfl⟩, htwin.calls, ?_, ?_⟩
      · simp [Plan.bare, Step.bareAll_eq_map, htwin.steps]
      all_goals exact fun i m hnull => by cases hnull

theorem beside_eq {σ τ β : Type} (r : τ) (x : Run α (σ × τ) β) (t : World α × σ) :
    beside r x t =
      taken (fun b v => (b, v.2.2)) (fun v => (v.1, v.2.1)) (x (t.1, (t.2, r))) := by
  rw [beside]
  cases x (t.1, (t.2, r)) <;> rfl

/-- Plans made side by side from programs with queries. -/
abbrev Makes (o : Origin α) (x : Run α Program Plan) : Prop :=
  Agree (Beside o.settings (o.Both Nothing)) x x
    (fun q t q' u => o.Made q q' ∧ Beside o.settings (o.Both Nothing) t u)
    (FailsAlike o.settings Eq (o.Both Nothing))

theorem makes_planForRule {r : Rule} (hr : r ∈ o.program.theory.rules) (hd : 0 ≤ d)
    (hplan : ∀ k, fuel = k + 2 → o.PlansAlike (planAt schema k) (d + 1) ∧ o.Unique (d + 1)) :
    o.Makes (planForRule schema fuel mode d r) := by
  cases fuel with
  | zero => exact agree_throw fun _ _ htu => ⟨rfl, htu⟩
  | succ fuel =>
  refine agree_settings (agree_lift (fun a ha => ?_) fun e _ t u htu => ⟨rfl, htu⟩)
  obtain ⟨head, body, -, hperm, -, hgoals, -, hdepth, hsteps, -⟩ := ofRule_ok ha
  have hanalyse : o.Leads (o.Starts a) o.Emitted (analyse schema fuel) := by
    cases fuel with
    | zero => exact agree_throw fun _ _ htu => ⟨rfl, htu.1, htu.2.1, htu.2.2.1⟩
    | succ fuel =>
      obtain ⟨hplan, hunique⟩ := hplan fuel rfl
      exact leads_analyse hd hplan hunique hgoals hsteps hdepth fun g hg =>
        o.calls r hr g (hperm.mem_iff.1 hg)
  refine Agree.bind (Q := fun x t x' u => Beside o.settings o.Emitted (t.1, (t.2, x.2))
    (u.1, (u.2, x'.2))) (hanalyse.taken (beside_eq a _) (beside_eq a _) ?_ ?_ ?_) ?_
  · exact fun t u htu => ⟨htu.1, htu.2.1, htu.2.2, rfl, rfl⟩
  · exact fun _ _ _ _ _ _ _ h => h
  · exact fun _ _ _ _ _ _ _ h => h
  · rintro ⟨_, a⟩ ⟨_, b⟩ t u htu
    have hstates : Beside o.settings (o.Both Nothing) t u :=
      ⟨htu.1, htu.2.1, htu.2.2.programs⟩
    rcases htu.2.2.made with ⟨q, q', hq, hq', hmade⟩ | ⟨e, he, he'⟩
    · refine .inl ⟨q, t, q', u, ?_, ?_, hmade, hstates⟩
      · exact lift_ok.2 ⟨hq, rfl⟩
      · exact lift_ok.2 ⟨hq', rfl⟩
    · refine .inr ⟨e, t, e, u, ?_, ?_, rfl, hstates⟩
      · change (lift a.plan : Run α Program Plan) t = _
        rw [show a.plan = .error e from he]
        rfl
      · change (lift b.plan : Run α Program Plan) u = _
        rw [show b.plan = .error e from he']
        rfl

theorem Made.sumOf {ps ps' : List Plan} (h : Forall₂ o.Made ps ps') :
    o.Made (.sumOf ps) (.sumOf ps') := by
  have hmap {β : Type} {f : Plan → β} (hf : ∀ q q', q.Alike q' → f q' = f q) :
      ps'.map f = ps.map f := by
    induction h with
    | nil => rfl
    | cons h _ ih => simp [hf _ _ h.alike, ih]
  have hsumInputs (qs : List Plan) :
      (Plan.sumOf qs).inputTypes = (qs.map Plan.inputTypes).foldl (fun t i => i.or t) none := by
    rw [foldl_map]
    rfl
  have hsumOutput (qs : List Plan) :
      (Plan.sumOf qs).outputType = (qs.map Plan.outputType).foldl Plan.firstType none := by
    rw [foldl_map]
    rfl
  refine ⟨⟨?_, ?_, ?_⟩, ⟨?_, ?_⟩, ?_, ?_⟩
  · rw [bare_sumOf, bare_sumOf, Plan.bare, Plan.bare, bareAll_eq_map, bareAll_eq_map,
      hmap fun _ _ h => h.bare]
  · rw [hsumInputs, hsumInputs, hmap fun _ _ h => h.inputTypes]
  · rw [hsumOutput, hsumOutput, hmap fun _ _ h => h.outputType]
  · refine callsAll_sumOf fun p hp => ?_
    obtain ⟨p', -, hmade⟩ := exists_of_forall₂ h p hp
    exact hmade.calls.1
  · refine callsAll_sumOf fun p hp => ?_
    obtain ⟨p', -, hmade⟩ := exists_of_forall₂ h.flip p hp
    exact hmade.calls.2
  all_goals exact fun i m hnull => by cases hnull

/-- The plan of a mode is made alike from its rules. -/
theorem makes_planRules {planRule : Rule → Run α Program Plan} {rules : List Rule}
    (h : ∀ r ∈ rules, o.Makes (planRule r)) : o.Makes (planRules planRule mode rules) := by
  rcases rules with _ | ⟨r, _ | ⟨r', rules⟩⟩
  · exact agree_throw fun _ _ htu => ⟨rfl, htu⟩
  · exact h r mem_cons_self
  · refine (agree_mapM h).bind fun ps ps' => ?_
    rintro t u ⟨hall, htu⟩
    exact .inl ⟨_, t, _, u, rfl, rfl, Made.sumOf hall, htu⟩

theorem plan?_program (m : Mode) (e : ℤ) : o.program.plan? m e = none :=
  o.program.plan?_of_fresh o.fresh m e

/-- Making the plan of a mode at a depth, whatever is kept. -/
def making (o : Origin α) (fuel : ℕ) (mode : Mode) (d : ℤ) : Run α Program Plan := do
  if ← lift (o.program.maxDepth.isExceededBy d) then return .null {} mode
  else planRules (planForRule o.schema fuel mode d) mode ((o.program.rulesFor? mode).getD [])

variable {t : World α × Program}

theorem planAt_of_none (fuel : ℕ) (halike : o.program.Alike t.2)
    (hnone : t.2.plan? mode d = none) :
    planAt o.schema (fuel + 1) mode d t = (do
      if ← lift (o.program.maxDepth.isExceededBy d) then keepPlan mode d (.null {} mode)
      else
        let plan ← planRules (planForRule o.schema fuel mode d) mode
          ((o.program.rulesFor? mode).getD [])
        let plan ← keepPlan mode d plan
        if d ≠ 0 then return plan else finishPlan o.program.normalization mode plan :
          Run α Program Plan) t := by
  rw [planAt, state_bind, hnone, halike.maxDepth, halike.rulesFor?_eq,
    halike.normalization]

/-- The plan of a call that is not kept is made and kept. -/
theorem planAt_call (hd : d ≠ 0) (halike : o.program.Alike t.2)
    (hnone : t.2.plan? mode d = none) :
    planAt o.schema (fuel + 1) mode d t = (o.making fuel mode d >>= keepPlan mode d) t := by
  rw [planAt_of_none fuel halike hnone, making]
  cases o.program.maxDepth.isExceededBy d with
  | error e => rfl
  | ok exceeded =>
    cases exceeded with
    | true => rfl
    | false =>
      simp only [if_pos hd]
      rfl

/-- The plan of a mode at a depth is made alike. -/
theorem makes_making (hd : 0 ≤ d)
    (hplan : ∀ k, fuel = k + 2 → o.PlansAlike (planAt o.schema k) (d + 1) ∧ o.Unique (d + 1)) :
    o.Makes (o.making fuel mode d) := by
  refine agree_lift (fun exceeded _ => ?_) fun e _ t u htu => ⟨rfl, htu⟩
  refine Agree.ite (fun _ => agree_pure fun t u htu => ⟨?_, htu⟩) fun _ => ?_
  · have huntyped : (Plan.null {} mode).NullUntyped := by
      rintro i m hnull
      cases hnull
      exact ⟨rfl, rfl⟩
    exact ⟨.refl _, ⟨trivial, trivial⟩, huntyped, huntyped⟩
  · exact makes_planRules fun r hr =>
      makes_planForRule (Program.mem_rules_of_rulesFor hr) hd hplan

theorem Coherent.put (h : o.Coherent H p) (hq : o.Right mode d q) (hcalls : q.CallsAll o.Right) :
    o.Coherent (fun m e => m = mode ∧ e = d) { p with plans := p.plans.put (mode, d) q } := by
  have hput : (p.plans.Entries o.Right → PlanTable.Entries o.Right (p.plans.put (mode, d) q)) ∧
      p.plans.SameQueries (p.plans.put (mode, d) q) := o.numberStable_right.put hq hcalls
  refine ⟨h.alike.trans ⟨rfl, rfl, rfl, rfl⟩, hput.1 h.entries, fun m q' hq' => ?_, ?_⟩
  · exact h.queries m q' ((hput.2 m).symm.trans hq')
  · rintro m e ⟨rfl, rfl⟩
    simp [Program.plan?]

/-- A call is planned as where no plan is kept, or fails as there. -/
theorem planAt_call_fresh (hmode : o.modes mode) (hd : 0 < d)
    (hfuel : fuel + 1 + 3 * d.toNat = planningFuel o.program 0)
    (hmakes : o.Makes (o.making fuel mode d)) :
    Agree (Beside o.settings fun p p' => o.Coherent Nothing p ∧ p' = o.program)
      (planAt o.schema (fuel + 1) mode d) (planAt o.schema (fuel + 1) mode d)
      (fun q t q' _ => q.Alike q' ∧ t.1.settings = o.settings ∧
        o.Coherent (fun m e => m = mode ∧ e = d) t.2)
      (fun e t e' _ => e = e' ∧ t.1.settings = o.settings ∧ o.Coherent Nothing t.2) := by
  rintro t ⟨w, _⟩ ⟨hs, hs', hcoherent, rfl⟩
  have hfresh (w : World α) : planAt o.schema (fuel + 1) mode d (w, o.program) =
      (o.making fuel mode d >>= keepPlan mode d) (w, o.program) :=
    planAt_call hd.ne' (.refl _) (plan?_program mode d)
  cases hkept : t.2.plan? mode d with
  | some q =>
    obtain ⟨hright, -⟩ := hcoherent.entries mode d q hd hkept
    obtain ⟨m', q0, hkey, hm', ⟨w0, t0, k, hw0, hk, hrun⟩, halike⟩ := hright.made
    obtain rfl : m' = mode := o.apart m' mode hm' hmode hkey
    obtain rfl : k = fuel + 1 := by omega
    rw [hfresh, bind_ok] at hrun
    obtain ⟨made, t1, hmade, hkeep⟩ := hrun
    obtain rfl : made = q0 := by cases hkeep; rfl
    obtain ⟨q1, u1, hq1, hboth, -⟩ := hmakes.of_ok
      ⟨hw0, hs', coherent_program, coherent_program⟩ hmade
    refine .inl ⟨q, t, q1, _, planAt_of_kept fuel hkept, (hfresh w).trans (bind_ok.2 ⟨q1, u1, hq1, rfl⟩),
      halike.trans hboth.alike, hs, hcoherent.alike, hcoherent.entries, hcoherent.queries, ?_⟩
    rintro m e ⟨rfl, rfl⟩
    rw [hkept]
    rfl
  | none =>
    rw [planAt_call hd.ne' hcoherent.alike hkept, hfresh]
    rcases hmakes t (w, o.program) ⟨hs, hs', hcoherent, coherent_program⟩ with
      ⟨q, t1, q', u1, hq, hq', hboth, hs1, -, hcoherent₁, -⟩ |
      ⟨e, t1, e', u1, he, he', rfl, hs1, -, hcoherent₁, -⟩
    · refine .inl ⟨q, _, q', _, bind_ok.2 ⟨q, t1, hq, rfl⟩, bind_ok.2 ⟨q', u1, hq', rfl⟩,
        hboth.alike, hs1, hcoherent₁.put ⟨hd, hboth.untyped.1, mode, q', rfl, hmode, ?_,
          hboth.alike⟩ hboth.calls.1⟩
      exact ⟨w, _, fuel + 1, hs', hfuel, (hfresh w).trans (bind_ok.2 ⟨q', u1, hq', rfl⟩)⟩
    · exact .inr ⟨e, t1, e, u1, bind_of_error he, bind_of_error he', rfl, hs1, hcoherent₁⟩

/-- Calls are planned alike, and their plans are unique. -/
theorem plansAlike_planAt (fuel : ℕ) : ∀ d : ℤ, 0 < d →
    fuel + 3 * d.toNat = planningFuel o.program 0 →
    o.PlansAlike (planAt o.schema fuel) d ∧ o.Unique d := by
  induction fuel using Nat.strong_induction_on with
  | _ fuel ih =>
  intro d hd hfuel
  cases fuel with
  | zero =>
    refine ⟨fun H m _ => agree_throw fun t u htu => ⟨rfl, htu.1, htu.2.1, htu.2.2.forget⟩, ?_⟩
    rintro m q q' hm ⟨w, t, k, -, hk, hrun⟩ -
    obtain rfl : k = 0 := by omega
    cases hrun
  | succ fuel =>
    have hcall (m : Mode) (hm : o.modes m) := planAt_call_fresh hm hd hfuel
      (makes_making hd.le fun k hk => ih k (by omega) (d + 1) (by omega) (by omega))
    constructor
    · rintro H m hm t u ⟨hs, hs', hp, hp'⟩
      -- Both are compared with the same run where no plan is kept.
      have hboth := (hcall m hm).through (hcall m hm) (r := (t.1, o.program))
        ⟨hs, hs, hp.mono fun _ _ => False.elim, rfl⟩ ⟨hs', hs, hp'.mono fun _ _ => False.elim, rfl⟩
      have hgrows {v v' : World α × Program} {q : Plan}
          (hv : planAt o.schema (fuel + 1) m d v = .ok q v') (hH : HasPlans H v.2)
          (hcoherent : o.Coherent (fun m' e => m' = m ∧ e = d) v'.2) :
          o.Coherent (fun m' e => H m' e ∨ m' = m ∧ e = d) v'.2 := by
        have hgrows := (planAt_grows (fuel + 1) m d hd v.2 0 hd v q v' hv).sound (.refl v.2)
        exact ⟨hcoherent.alike, hcoherent.entries, hcoherent.queries, fun m' e hm' =>
          hm'.elim (hH.grows hgrows m' e) (hcoherent.has m' e)⟩
      rcases hboth with
        ⟨q, t', q', u', hq, hq', q0, _, ⟨halike, hs1, hc⟩, halike', hs2, hc'⟩ |
        ⟨e, t', e', u', he, he', e0, _, ⟨rfl, hs1, hc⟩, rfl, hs2, hc'⟩
      · exact .inl ⟨q, t', q', u', hq, hq', halike.trans halike'.symm, hs1, hs2,
          hgrows hq hp.has hc, hgrows hq' hp'.has hc'⟩
      · exact .inr ⟨_, t', _, u', he, he', rfl, hs1, hs2, hc, hc'⟩
    · rintro m q q' hm ⟨w, t, k, hw, hk, hrun⟩ ⟨w', t', k', hw', hk', hrun'⟩
      obtain rfl : k = fuel + 1 := by omega
      obtain rfl : k' = fuel + 1 := by omega
      obtain ⟨q1, u, hrun1, halike, -⟩ := (hcall m hm).of_ok (t := (w', o.program))
        ⟨hw, hw', coherent_program, rfl⟩ hrun
      rw [hrun'] at hrun1
      cases hrun1
      exact halike

theorem makes_query (mode : Mode) (hfuel : fuel + 1 = planningFuel o.program 0) :
    o.Makes (o.making fuel mode 0) :=
  makes_making le_rfl fun k hk => plansAlike_planAt k 1 one_pos (by omega)

/-- Plans that are made side by side are normalized alike. -/
theorem Made.normalize (h : o.Made q q') :
    ∃ normal normal', Program.normalize o.program.normalization q = .ok normal ∧
      Program.normalize o.program.normalization q' = .ok normal' ∧ o.Made normal normal' := by
  have hknown := o.known
  cases hn : o.program.normalization with
  | identity => exact ⟨q, q', rfl, rfl, h⟩
  | softmax =>
    refine ⟨_, _, rfl, rfl, ⟨?_, h.alike.inputTypes, h.alike.outputType⟩, h.calls, ?_, ?_⟩
    · simp [Plan.softmaxOf, Plan.bare, h.alike.bare]
    all_goals exact fun i m hnull => by cases hnull
  | logSoftmax =>
    refine ⟨_, _, rfl, rfl, ⟨?_, rfl, h.alike.outputType⟩, h.calls, ?_, ?_⟩
    · simp [Plan.softmaxOf, Plan.logOf, Plan.bare, h.alike.bare]
    all_goals exact fun i m hnull => by cases hnull
  | unknown shown => exact absurd hn (hknown shown)

/-- A query plan with the right outline can be kept. -/
theorem Coherent.put_query {table : PlanTable} (h : o.Coherent Nothing p) (hq : o.RightQuery mode q)
    (hentries : table.Entries o.Right)
    (hqueries : ∀ m, mode.key ≠ m.key → table.get? (m, 0) = p.plan? m 0) :
    o.Coherent Nothing { p with plans := table.put (mode, 0) q } := by
  refine ⟨h.alike.trans ⟨rfl, rfl, rfl, rfl⟩, entries_put_query hentries, fun m q' hq' => ?_,
    fun _ _ => False.elim⟩
  simp only [Program.plan?, Dictionary.get?_put] at hq'
  split at hq'
  · next hkey =>
    obtain rfl := Option.some.inj hq'
    obtain ⟨m', q0, hm', hrest⟩ := hq
    exact ⟨m', q0, hm'.trans ((planKey_beq_iff mode m 0 0).1 hkey).1, hrest⟩
  · next hkey =>
    refine h.queries m q' ((hqueries m fun hm => hkey ?_).symm.trans hq')
    exact (planKey_beq_iff mode m 0 0).2 ⟨hm, rfl⟩

/-- Plans that are made side by side are alike once they are numbered. -/
theorem Made.number (h : o.Made q q') (table table' : PlanTable) :
    ((Plan.number false q 1).run table).1.1.Alike ((Plan.number false q' 1).run table').1.1 ∧
      ((Plan.number false q' 1).run table').1.1.outline =
        ((Plan.number false q 1).run table).1.1.outline := by
  refine ⟨?_, h.alike.outline_number _ _ _ _ _ _⟩
  exact (alike_number h.untyped.1 false 1 table).symm.trans
    (h.alike.trans (alike_number h.untyped.2 false 1 table'))

/-- A plan is kept, normalized, numbered, and kept again. -/
theorem finishing_eq (mode : Mode) {normal : Plan} (t : World α × Program)
    (h : Program.normalize o.program.normalization q = .ok normal) :
    ∃ q' table, q' = ((Plan.number false normal 1).run (t.2.plans.put (mode, 0) q)).1.1 ∧
      table = ((Plan.number false normal 1).run (t.2.plans.put (mode, 0) q)).2 ∧
      (keepPlan mode 0 q >>= finishPlan o.program.normalization mode) t =
        .ok q' (t.1, { t.2 with plans := table.put (mode, 0) q' }) := by
  refine ⟨_, _, rfl, rfl, bind_ok.2 ⟨q, (t.1, { t.2 with plans := t.2.plans.put (mode, 0) q }), rfl,
    ?_⟩⟩
  rw [finishPlan, h]
  rfl

/-- Plans made side by side are finished side by side, and kept rightly. -/
theorem Made.finish (h : o.Made q q') (mode : Mode) {t u : World α × Program}
    (hcoherent : o.Coherent Nothing t.2) :
    ∃ x p y p', (keepPlan mode 0 q >>= finishPlan o.program.normalization mode) t = .ok x (t.1, p) ∧
      (keepPlan mode 0 q' >>= finishPlan o.program.normalization mode) u = .ok y (u.1, p') ∧
      (x.Alike y ∧ y.outline = x.outline) ∧
      (o.modes mode → o.Fresh mode 0 y → o.Coherent Nothing p) := by
  obtain ⟨normal, normal', hnormal, hnormal', hmade⟩ := h.normalize
  obtain ⟨x, table, hx, rfl, hleft⟩ := finishing_eq mode t hnormal
  obtain ⟨y, table', hy, -, hright⟩ := finishing_eq mode u hnormal'
  have hxy := hmade.number (t.2.plans.put (mode, 0) q) (u.2.plans.put (mode, 0) q')
  rw [← hx, ← hy] at hxy
  refine ⟨x, _, y, _, hleft, hright, hxy, fun hmode hfresh => ?_⟩
  obtain ⟨-, htable⟩ := number_kept o.numberStable_right false normal 1
    (t.2.plans.put (mode, 0) q) hmade.calls.1
  refine hcoherent.put_query ⟨mode, y, rfl, hmode, hfresh, hxy⟩
    (htable.entries (entries_put_query hcoherent.entries)) fun m hm => ?_
  rw [htable.queries m, Dictionary.get?_put, if_neg]
  · rfl
  · exact fun hkey => hm ((planKey_beq_iff mode m 0 0).1 hkey).1

theorem planAt_query (halike : o.program.Alike t.2)
    (hnone : t.2.plan? mode 0 = none) (hex : o.program.maxDepth.isExceededBy 0 = .ok false) :
    planAt o.schema (fuel + 1) mode 0 t = (o.making fuel mode 0 >>= fun q =>
      keepPlan mode 0 q >>= finishPlan o.program.normalization mode) t := by
  rw [planAt_of_none fuel halike hnone, making, hex]
  rfl

/-- A query is planned as where no plan is kept, or fails as there. -/
abbrev QueriesAlike (o : Origin α) (S : Program → Prop) (x : Run α Program Plan) : Prop :=
  Agree (Beside o.settings fun p p' => S p ∧ p' = o.program) x x
    (fun q t q' u => (q.Alike q' ∧ q'.outline = q.outline) ∧
      Beside o.settings (fun p _ => o.Coherent Nothing p) t u)
    (FailsAlike o.settings Eq fun p _ => o.Coherent Nothing p)

theorem queriesAlike_of_none (hmode : o.modes mode) (hfuel : fuel + 1 = planningFuel o.program 0) :
    o.QueriesAlike (fun p => o.Coherent Nothing p ∧ p.plan? mode 0 = none)
      (planAt o.schema (fuel + 1) mode 0) := by
  rintro t ⟨w, _⟩ ⟨hs, hs', ⟨hcoherent, hnone⟩, rfl⟩
  have hfresh (q : Plan) (u : World α × Program)
      (h : planAt o.schema (fuel + 1) mode 0 (w, o.program) = .ok q u) : o.Fresh mode 0 q :=
    ⟨w, u, fuel + 1, hs', hfuel, h⟩
  have hnew : (w, o.program).2.plan? mode 0 = none := plan?_program mode 0
  cases hex : o.program.maxDepth.isExceededBy 0 with
  | error e =>
    refine .inr ⟨e, t, e, (w, o.program), ?_, ?_, rfl, hs, hs', hcoherent⟩
    · rw [planAt_of_none fuel hcoherent.alike hnone, hex]
      rfl
    · rw [planAt_of_none fuel (.refl o.program) hnew, hex]
      rfl
  | ok exceeded =>
    cases exceeded with
    | true =>
      have hleft := planAt_of_none fuel hcoherent.alike hnone
      have hright := planAt_of_none fuel (.refl o.program) hnew
      rw [hex] at hleft hright
      refine .inl ⟨_, _, _, _, hleft, hright, ⟨.refl _, rfl⟩, hs, hs', ?_⟩
      exact hcoherent.put_query ⟨mode, _, rfl, hmode, hfresh _ _ hright, .refl _, rfl⟩
        hcoherent.entries fun m _ => rfl
    | false =>
      rw [planAt_query hcoherent.alike hnone hex]
      rw [planAt_query (.refl _) hnew hex] at hfresh ⊢
      rcases makes_query mode hfuel t (w, o.program) ⟨hs, hs', hcoherent, coherent_program⟩ with
        ⟨q, t1, q', u1, hq, hq', hmade, hs1, hs2, hcoherent₁, -⟩ |
        ⟨e, t1, e', u1, he, he', rfl, hs1, hs2, hcoherent₁, -⟩
      · obtain ⟨x, p, y, p', hx, hy, hxy, hp⟩ := hmade.finish mode hcoherent₁
        have hy' : (o.making fuel mode 0 >>= fun q => keepPlan mode 0 q >>=
            finishPlan o.program.normalization mode) (w, o.program) = .ok y (u1.1, p') :=
          bind_ok.2 ⟨q', u1, hq', hy⟩
        exact .inl ⟨x, _, y, _, bind_ok.2 ⟨q, t1, hq, hx⟩, hy', hxy, hs1, hs2,
          hp hmode (hfresh y _ hy')⟩
      · exact .inr ⟨e, t1, e, u1, bind_of_error he, bind_of_error he', rfl, hs1, hs2, hcoherent₁⟩

/-- A query is planned as where no plan is kept, whether its own is or not. -/
theorem queriesAlike_planAt (hmode : o.modes mode) (hfuel : fuel + 1 = planningFuel o.program 0) :
    o.QueriesAlike (o.Coherent Nothing) (planAt o.schema (fuel + 1) mode 0) := by
  rintro t ⟨w, _⟩ ⟨hs, hs', hcoherent, rfl⟩
  cases hkept : t.2.plan? mode 0 with
  | none => exact queriesAlike_of_none hmode hfuel t _ ⟨hs, hs', ⟨hcoherent, hkept⟩, rfl⟩
  | some q =>
    obtain ⟨m', q0, hkey, hm', ⟨w0, t0, k, hw0, hk, hrun⟩, halike, houtline⟩ :=
      hcoherent.queries mode q hkept
    obtain rfl : m' = mode := o.apart m' mode hm' hmode hkey
    obtain rfl : k = fuel + 1 := by simpa [hfuel] using hk
    obtain ⟨q1, u1, hq1, ⟨halike1, houtline₁⟩, -, hs1, -⟩ := (queriesAlike_of_none hmode hfuel).of_ok
      ⟨hw0, hs', ⟨coherent_program, plan?_program m' 0⟩, rfl⟩ hrun
    exact .inl ⟨q, t, q1, u1, planAt_of_kept fuel hkept, hq1,
      ⟨halike.trans halike1, houtline₁.trans houtline⟩, hs, hs1, hcoherent⟩

/-- A query is compiled as on a program without plans. -/
theorem queriesAlike_compile (hmode : o.modes mode) :
    o.QueriesAlike (o.Coherent Nothing) (compile o.schema mode) := by
  obtain ⟨fuel, hfuel⟩ := exists_planningFuel o.program
  have hcompile (t : World α × Program) (ht : o.program.Alike t.2) :
      compile o.schema mode t = planAt o.schema (fuel + 1) mode 0 t := by
    rw [← hfuel]
    change planAt o.schema (planningFuel t.2 0) mode 0 t = _
    unfold planningFuel
    rw [ht.maxDepth]
  rintro t u htu
  rw [hcompile t htu.2.2.1.alike, hcompile u (htu.2.2.2 ▸ .refl _)]
  exact queriesAlike_planAt hmode hfuel.symm t u htu

end Origin

end BeliefLogic
