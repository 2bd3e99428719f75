import BeliefLogic.Proofs.Program.Analysis

/-!
# What is planned

A planned rule has the operations that its circuit emits, and calls with plans one level deeper.
What holds of such plans holds of all plans kept for calls.
-/

namespace BeliefLogic

open Outcome Run List

variable {fuel : ℕ} {rules : List Rule}

theorem planKey_beq_iff (mode m : Mode) (d e : ℤ) :
    ((mode, d) == (m, e)) = true ↔ mode.key = m.key ∧ d = e := by
  rw [← Mode.beq_iff_key_eq, ← beq_iff_eq (a := d), ← Bool.and_eq_true]
  rfl

theorem not_planKey_beq (mode m : Mode) {d e : ℤ} (h : d ≠ e) : ¬((mode, d) == (m, e)) = true :=
  fun hkey => h ((planKey_beq_iff mode m d e).1 hkey).2

instance : EquivBEq (Mode × ℤ) where
  rfl {k} := (planKey_beq_iff k.1 k.1 k.2 k.2).2 ⟨rfl, rfl⟩
  symm {k l} h := by
    obtain ⟨h1, h2⟩ := (planKey_beq_iff k.1 l.1 k.2 l.2).1 h
    exact (planKey_beq_iff l.1 k.1 l.2 k.2).2 ⟨h1.symm, h2.symm⟩
  trans {k l m} h h' := by
    obtain ⟨h1, h2⟩ := (planKey_beq_iff k.1 l.1 k.2 l.2).1 h
    obtain ⟨h₁', h₂'⟩ := (planKey_beq_iff l.1 m.1 l.2 m.2).1 h'
    exact (planKey_beq_iff k.1 m.1 k.2 m.2).2 ⟨h1.trans h₁', h2.trans h₂'⟩

def Flow.circuit (f : Flow) (goals : List Goal) : Circuit where
  toWiring := f.wiring
  mode? j := (f.modeOf goals j).toOption
  defined := f.marked

theorem Flow.modeOf_ok {f : Flow} {goals : List Goal} {j : ℕ} {mode : Mode}
    (h : f.modeOf goals j = .ok mode) :
    ∃ g, goals[j]? = some g ∧ mode.functor = g.functor ∧
      mode.args = g.args.map ((f.circuit goals).direction j) ∧
      ∀ a ∈ g.args, a = "i" ∨ a = "o" → a ∈ f.wiring.inputs j ∨ a ∈ f.wiring.outputs j := by
  obtain ⟨flow, hflow, h⟩ := then_ok.1 h
  obtain ⟨hin, hout, -⟩ := inputs_of_goal hflow
  split at h
  · next g hg =>
    obtain ⟨args, hargs, h⟩ := then_ok.1 h
    obtain rfl := except_pure_ok.1 h
    have hdir (a b : String) (hab : Flow.direction flow a = .ok b) :
        b = (f.circuit goals).direction j a ∧
          (a = "i" ∨ a = "o" → a ∈ f.wiring.inputs j ∨ a ∈ f.wiring.outputs j) := by
      simp only [Flow.direction] at hab
      simp only [Circuit.direction, Flow.circuit]
      split at hab
      · next ha => simp_all
      split at hab
      · next ha => simp_all
      split at hab
      · cases hab
      · next hres =>
        simp_all
    have hall := except_mapM_ok hargs
    refine ⟨g, hg, rfl, ?_, ?_⟩
    · rw [← forall₂_eq_eq_eq, forall₂_map_right_iff]
      exact (hall.imp fun a b hab => (hdir a b hab).1).flip
    · exact ((forall₂_and_left g.args args).1
        (hall.imp fun a b hab => ⟨(hdir a b hab).2, hab⟩)).1
  · cases h

namespace Circuit

/-- The circuit of a rule for a mode, with goals in an order that can start. -/
structure Analyses (c : Circuit) (p : Program) (mode : Mode) (r : Rule) (head : Goal)
    (body : List Goal) : Prop where
  head_eq : r.head = some head
  perm : body.Perm r.body
  coherent : c.toWiring.Coherent
  covers : c.toWiring.Covers body
  inputs_head : c.inputs 0 = Flow.headArgs mode true head.args 0
  outputs_head : c.outputs 0 = Flow.headArgs mode false head.args 0
  single_output : (c.outputs 0).length = 1
  nodup : head.args.Nodup
  names : ∀ v ∈ head.args, isVariableName v = true
  mode_eq : ∀ j g, body[j]? = some g → ∃ m, c.mode? (j + 1) = some m ∧ m.functor = g.functor ∧
    m.args = g.args.map (c.direction (j + 1)) ∧
    (∀ a ∈ g.args, a = "i" ∨ a = "o" → a ∈ c.inputs (j + 1) ∨ a ∈ c.outputs (j + 1)) ∧
    c.defined (j + 1) = p.defines m
  mode_none : ∀ j, body.length ≤ j → c.mode? (j + 1) = none
  /-- Only assignments and unstored relations can do without variables. -/
  grounded : ∀ j g m, body[j]? = some g → c.mode? (j + 1) = some m → g.variableNames = [] →
    g.args ≠ [] ∧ (g.functor = assignment ∨
      (g.arity = 1 ∧ (p.plugins.has m = true ∨ p.defines m = true)))

theorem Analyses.congr {c : Circuit} {p p' : Program} {mode : Mode} {r : Rule} {head : Goal}
    {body : List Goal} (h : c.Analyses p mode r head body) (hp : p.Alike p') :
    c.Analyses p' mode r head body := by
  refine { h with mode_eq := fun j g hg => ?_, grounded := fun j g m hg hm hno => ?_ }
  · rw [funext hp.defines_eq]
    exact h.mode_eq j g hg
  · rw [hp.plugins, hp.defines_eq]
    exact h.grounded j g m hg hm hno

end Circuit

/-- The operations of a rule's circuit, with calls that are as they should be. -/
inductive RulePlanned (p : Program) (Q : Mode → ℤ → Plan → Prop) (mode : Mode) (d : ℤ) (r : Rule) :
    Plan → Prop where
  | intro {c head body info out steps r'} : Circuit.Analyses c p mode r head body →
      Emits c body out (steps.map Step.operation) →
      (∀ i x m e q, .call i x m e q ∈ steps → e = d + 1 ∧ Q m (d + 1) q) →
      (∀ i xs m, .act i (.plugin xs m) ∈ steps → p.plugins.has m = true) →
      RulePlanned p Q mode d r (.sequence info (c.inputs 0) out steps r')

theorem RulePlanned.imp {p p' : Program} {Q Q' : Mode → ℤ → Plan → Prop} {mode : Mode} {d : ℤ}
    {r : Rule} {plan : Plan} (h : RulePlanned p Q mode d r plan) (hp : p.Alike p')
    (hQ : ∀ m q, Q m (d + 1) q → Q' m (d + 1) q) : RulePlanned p' Q' mode d r plan := by
  obtain ⟨hc, hemits, hcalls, hplugins⟩ := h
  refine .intro (hc.congr hp) hemits (fun i x m e q hq => ?_) fun i xs m hm => ?_
  · exact (hcalls i x m e q hq).imp_right (hQ m q)
  · rw [hp.plugins]
    exact hplugins i xs m hm

/-- The plan of a mode from the plans of its rules. -/
inductive OfRules (P : Rule → Plan → Prop) : List Rule → Plan → Prop where
  | one {r plan} : P r plan → OfRules P [r] plan
  | many {r r' rules plans} : Forall₂ P (r :: r' :: rules) plans →
      OfRules P (r :: r' :: rules) (.sumOf plans)

/-- The plan of a mode at a depth that is not exceeded. -/
def ModePlanned (p : Program) (Q : Mode → ℤ → Plan → Prop) (mode : Mode) (d : ℤ) : Plan → Prop :=
  OfRules (RulePlanned p Q mode d) ((p.rulesFor? mode).getD [])

/-- What holds of plans as they are made, and so of all for calls. -/
structure Program.Grants (p : Program) (Q : Mode → ℤ → Plan → Prop) : Prop where
  /-- There are no answers beyond the greatest depth. -/
  null : ∀ mode d, p.maxDepth.isExceededBy d = .ok true → Q mode d (.null {} mode)
  made : ∀ mode d plan, p.maxDepth.isExceededBy d = .ok false → ModePlanned p Q mode d plan →
    Q mode d plan
  /-- Modes with the same text share their plans. -/
  key : ∀ mode mode' d plan, mode.key = mode'.key → Q mode d plan → Q mode' d plan

/-- A program like another, with plans for calls as they should be. -/
structure Program.Sound (p0 : Program) (Q : Mode → ℤ → Plan → Prop) (p : Program) : Prop where
  alike : p0.Alike p
  plans : ∀ mode d plan, 0 < d → p.plan? mode d = some plan → Q mode d plan

namespace Run

variable {α : Type} {S : Program → Prop} {p0 : Program} {Q : Mode → ℤ → Plan → Prop} {mode : Mode}
  {d : ℤ} {r : Rule} {w w' : World α} {p p' : Program} {a a' : Analysis} {body : List Goal}
  {head : Goal} {plan : Plan} {t t' : World α × (Program × Analysis)} {x : Unit}
  {schema : Option Schema}

/-- The analysis of a rule with goals in order. -/
theorem ofRule_ok {strict : Bool} {dialect : Dialect}
    (h : Analysis.ofRule strict dialect mode d r = .ok a) :
    ∃ head body, r.head = some head ∧ body.Perm r.body ∧
      (∀ g ∈ body, ∃ known, g.isReady known = true) ∧ a.goals = head :: body ∧ a.mode = mode ∧
      a.depth = d ∧ a.emission.steps = [] ∧ a.result = none := by
  obtain ⟨r', hr', h⟩ := then_ok.1 h
  obtain ⟨head, body, hr, -, -, hbody, rfl⟩ := Rule.reorder_ok_iff.1 hr'
  obtain ⟨hperm, horder⟩ := Goal.ordered?_some hbody
  refine ⟨head, body, hr, hperm, horder.exists_isReady, ?_⟩
  have hdone : Except.ok a =
      (.ok { mode, depth := d, rule := { r with body },
             emission := { goals := { r with body }.goals } } : Except Error Analysis) := by
    cases strict with
    | false => exact h.symm
    | true =>
      obtain ⟨_, _, hdone⟩ := then_ok.1 h
      exact hdone.symm
  obtain rfl := Except.ok.inj hdone
  simp [Analysis.goals, Rule.goals, hr]

/-- The flow through a rule is wired, and its head has one output. -/
theorem inferFlow_ok (hgoals : t.2.2.goals = head :: body) (h : inferFlow t = .ok x t') :
    Flow.ofGoals t.2.2.mode (head :: body) = .ok t'.2.2.flow ∧
      (t'.2.2.flow.wiring.outputs 0).length = 1 ∧ t'.1 = t.1 ∧ t'.2.1 = t.2.1 ∧
      t'.2.2.goals = head :: body ∧ t'.2.2.depth = t.2.2.depth ∧
      t'.2.2.emission.steps = t.2.2.emission.steps ∧ t'.2.2.result = t.2.2.result := by
  simp only [inferFlow, analysis_bind] at h
  rw [hgoals] at h
  cases hf : Flow.ofGoals t.2.2.mode (head :: body) with
  | ok f =>
    rw [hf] at h
    simp only [setAnalysis, bind_ok, update_ok, lift_ok, settings_bind] at h
    obtain ⟨_, _, rfl, hcheck, rfl⟩ := h
    refine ⟨rfl, ?_, rfl, rfl, hgoals, rfl, rfl, rfl⟩
    obtain ⟨g, hg, hcheck⟩ := then_ok.1 hcheck
    change (f.wiring.outputs 0).length = 1
    rw [← (Flow.inputs_of_goal hg).2.1]
    by_contra hne
    simp [hne] at hcheck
  | error e =>
    rw [hf] at h
    simp at h

theorem keepEmission_ok {e : Emission} (h : keepEmission e t = .ok x t') :
    t'.1.settings = t.1.settings ∧
      t'.2 = (t.2.1, { t.2.2 with emission := { e with trace := [] } }) := by
  simp only [keepEmission, settings_bind] at h
  split at h
  · obtain ⟨_, u, hu, h⟩ := bind_ok.1 h
    have hu := moves_forM e.trace (fun text _ => tells_say) _ _ _ hu
    obtain rfl := update_ok.1 h
    exact ⟨hu.1, by simp [hu.2]⟩
  · obtain rfl := update_ok.1 h
    exact ⟨rfl, rfl⟩

/-- The steps that an analysis emits are the operations of its circuit. -/
theorem emitSteps_ok (hgoals : t.2.2.goals = head :: body)
    (hlen : t.2.2.flow.goals.length = t.2.2.goals.length) (hun : t.2.2.flow.Unconnected)
    (hsteps : t.2.2.emission.steps = []) (h : emitSteps t = .ok x t') :
    ∃ out, t'.1.settings = t.1.settings ∧ t'.2.1 = t.2.1 ∧
      t'.2.2.result = some (out, (t.2.2.flow.circuit t.2.2.goals).inputs 0) ∧
      Emits (t.2.2.flow.circuit t.2.2.goals) body out (t'.2.2.emission.steps.map Step.operation) ∧
      (∀ i y m e q, .call i y m e q ∈ t'.2.2.emission.steps →
        e = t.2.2.depth + 1 ∧ t.2.1.plan? m (t.2.2.depth + 1) = some q) ∧
      ∀ i xs m, .act i (.plugin xs m) ∈ t'.2.2.emission.steps → t.2.1.plugins.has m = true := by
  simp only [emitSteps, state_bind, settings_bind] at h
  set c := messaging t.2.1 t.2.2 t.1.settings.dialect
  set k := t.2.2.flow.circuit t.2.2.goals
  have hmatches : t.2.2.emission.Matches k :=
    ⟨rfl, fun j g hg => (Flow.inputs_of_goal hg).2.2.1, fun j m _ hm => by
      have hm : t.2.2.flow.modeOf t.2.2.goals j = .ok m := hm
      simp [k, Flow.circuit, hm, Except.toOption]⟩
  cases he : c.emit.run t.2.2.emission with
  | ok out e =>
    rw [he] at h
    simp only [bind_ok, lift_ok, update_ok] at h
    obtain ⟨_, u, hu, g, _, ⟨hg, rfl⟩, rfl⟩ := h
    obtain ⟨hw, hu⟩ := keepEmission_ok hu
    have hextra : k.defined t.2.2.emission.goals.length = false := by
      have hnone : t.2.2.flow.goals[t.2.2.goals.length]? = none :=
        getElem?_eq_none hlen.le
      change t.2.2.flow.marked t.2.2.goals.length = false
      simp [Flow.marked, hnone]
    have hseen : t.2.2.emission.Seen [] := fun v f hf => by
      simp [hun v f hf]
    obtain ⟨hemits, hcalls, hafter⟩ :=
      Messaging.emit_ok hmatches hgoals hlen hextra hsteps hseen he
    refine ⟨out, hw, by simp [hu], by simp [(hafter.goal hg).1], ?_⟩
    simp only [hu]
    exact ⟨hemits, fun i y m depth q hq => hcalls _ hq, fun i xs m hm => hcalls _ hm⟩
  | error err e =>
    rw [he] at h
    simp at h

@[simp] theorem beside_ok {σ τ β : Type} {t0 : τ} {act : Run α (σ × τ) β} {b : β × τ}
    {t t' : World α × σ} : beside t0 act t = .ok b t' ↔
      ∃ u, act (t.1, (t.2, t0)) = .ok b.1 u ∧ u.2.2 = b.2 ∧ (u.1, u.2.1) = t' := by
  obtain ⟨w, s⟩ := t
  obtain ⟨b, c⟩ := b
  simp only [beside]
  rcases act (w, (s, t0)) with ⟨b', u⟩ | ⟨e, u⟩
  · simp only [EStateM.Result.ok.injEq, Prod.mk.injEq]
    constructor
    · rintro ⟨⟨rfl, rfl⟩, rfl⟩
      exact ⟨u, ⟨rfl, rfl⟩, rfl, rfl⟩
    · rintro ⟨_, ⟨rfl, rfl⟩, rfl, rfl⟩
      exact ⟨⟨rfl, rfl⟩, rfl⟩
  · simp

/-- The circuit of a flow that was analysed. -/
theorem analyses_of_flow {f f' : Flow} (hhead : r.head = some head) (hperm : body.Perm r.body)
    (hready : ∀ g ∈ body, ∃ known, g.isReady known = true)
    (hf : Flow.ofGoals mode (head :: body) = .ok f) (hone : (f.wiring.outputs 0).length = 1)
    (halike : f.Alike f') (hmarked : ∀ j, j + 1 < (head :: body).length → ∃ m,
      f.modeOf (head :: body) (j + 1) = .ok m ∧ f'.marked (j + 1) = p.defines m)
    (hvars : ∀ j g, (head :: body)[j + 1]? = some g → ∃ m,
      f.modeOf (head :: body) (j + 1) = .ok m ∧
        (p.plugins.has m = true ∨ g.functor = assignment ∨ p.defines m = true ∨
          ∀ a ∈ g.args, isVariableName a = true)) :
    (f'.circuit (head :: body)).Analyses p mode r head body := by
  obtain ⟨hin, hout, hnd, hnames⟩ := Flow.headed_ofGoals hf
  have hwired := Flow.wired_ofGoals hf
  have hcircuit (j : ℕ) : (f'.circuit (head :: body)).mode? j =
      (f.modeOf (head :: body) j).toOption := by
    rw [← halike.modeOf_eq]
    rfl
  have hwiring : (f'.circuit (head :: body)).toWiring = f.wiring := halike.wiring
  refine ⟨hhead, hperm, hwiring ▸ hwired.coherent, hwiring ▸ hwired.covers, hwiring ▸ hin,
    hwiring ▸ hout, hwiring ▸ hone, hnd, hnames, fun j g hg => ?_, fun j hj => ?_,
    fun j g m hg hm hno => ?_⟩
  · obtain ⟨m, hm, hdef⟩ := hmarked j (by simpa using (List.getElem?_eq_some_iff.1 hg).1)
    have hm' : f'.modeOf (head :: body) (j + 1) = .ok m := halike.modeOf_eq _ _ ▸ hm
    obtain ⟨g', hg', hfunctor, hargs, hres⟩ := Flow.modeOf_ok hm'
    obtain rfl := Option.mem_unique hg hg'
    exact ⟨m, by rw [hcircuit, hm]; rfl, hfunctor, hargs, hres, hdef⟩
  · have hget : f.goals[j + 1]? = none := getElem?_eq_none (by rw [hwired.length]; omega)
    have hnone : f.goal (j + 1) = .error .notFound := by simp [Flow.goal, hget]
    simp [hcircuit, Flow.modeOf, hnone, Except.toOption]
  · obtain ⟨known, hstart⟩ := hready g (mem_of_getElem? hg)
    obtain ⟨m', hm', hcases⟩ := hvars j g hg
    obtain rfl : m' = m := by
      rw [hcircuit, hm'] at hm
      exact Option.some.inj hm
    have hsome := Goal.of_isReady hstart hno
    have hne : g.args ≠ [] := by
      rintro hnil
      simp [Goal.isAssignment, Goal.arity, hnil] at hsome
    refine ⟨hne, ?_⟩
    rcases hcases with hplugin | hassign | hdef | hall
    · exact hsome.imp (fun h => by simp_all [Goal.isAssignment]) fun h => ⟨h, .inl hplugin⟩
    · exact .inl hassign
    · exact hsome.imp (fun h => by simp_all [Goal.isAssignment]) fun h => ⟨h, .inr hdef⟩
    · obtain ⟨v, hv⟩ := exists_mem_of_ne_nil _ hne
      have : v ∈ g.variableNames := mem_filter.2 ⟨hv, hall v hv⟩
      simp [hno] at this

theorem operation_withType (s : Step) (type : Option String) :
    (s.withType type).operation = s.operation := by
  cases s <;> rfl

/-- The plan of an analysis that emitted its steps. -/
theorem plan_ok {out : String} {inputs : List String} (hresult : a.result = some (out, inputs))
    (h : a.plan = .ok plan) : ∃ info, plan = .sequence info inputs out a.emission.steps a.rule := by
  rw [Analysis.plan, hresult] at h
  obtain ⟨types, -, h⟩ := then_ok.1 h
  cases htype : a.emission.types.get? out with
  | none =>
    rw [htype] at h
    simp at h
  | some type =>
    rw [htype] at h
    obtain ⟨type, rfl⟩ := h
    exact ⟨_, rfl⟩

/-- A rule that was analysed. Calls are planned one level deeper. -/
theorem analyse_ok (hhead : r.head = some head) (hperm : body.Perm r.body)
    (hready : ∀ g ∈ body, ∃ known, g.isReady known = true)
    (hplan : ∀ m, Moves (Continues S) (planAt schema fuel m (d + 1) : Run α Program Plan))
    (hgoals : t.2.2.goals = head :: body) (hdepth : t.2.2.depth = d)
    (hsteps : t.2.2.emission.steps = []) (hresult : t.2.2.result = none)
    (h : analyse schema (fuel + 1) t = .ok x t') :
    Continues S (t.1, t.2.1) (t'.1, t'.2.1) ∧ (t'.2.2.result = none ∨
      ∃ out inputs, t'.2.2.result = some (out, inputs) ∧ ∀ info r',
        RulePlanned t.2.1 (fun m e q => t'.2.1.plan? m e = some q) t.2.2.mode d r
          (.sequence info inputs out t'.2.2.emission.steps r')) := by
  simp only [analyse, bind_ok, update_ok] at h
  obtain ⟨_, t1, h1, _, t2, h2, _, t3, h3, _, t4, h4, _, t5, h5, rfl⟩ := h
  obtain ⟨hf, hone, hw1, hp1, hgoals1, hdepth1, hsteps1, hresult₁⟩ := inferFlow_ok hgoals h1
  obtain ⟨hkeeps, hmarks⟩ := planCalls_ok S hplan (hdepth1.trans hdepth) h2
  have hwired := Flow.wired_ofGoals hf
  have hnamed : t2.2.2.flow.Named := fun v hv => hwired.named v (by rwa [← hkeeps.flow.contains])
  obtain ⟨hkeeps', hvars⟩ := inferTypes_ok S h3 hnamed
  have hall := Settled.trans hkeeps hkeeps'
  have hgoals3 : t3.2.2.goals = head :: body := hall.goals.trans hgoals1
  have hcontinues : Continues S (t.1, t.2.1) (t3.1, t3.2.1) := by
    have := hall.program
    rwa [hw1, hp1] at this
  simp only [emitIfAsked, settings_bind] at h4
  simp only [typeSteps, update_ok] at h5
  subst h5
  split at h4
  · obtain ⟨out, hw4, hp4, hr4, hemits, hcalls, hplugin⟩ :=
      emitSteps_ok hgoals3 (by rw [hall.flow.length, hgoals3]; exact hwired.length)
        (hall.flow.unconnected hwired.unconnected) (hall.steps.trans (hsteps1.trans hsteps)) h4
    rw [hgoals3] at hr4 hemits
    have hanalyses : (t3.2.2.flow.circuit (head :: body)).Analyses t.2.1 t.2.2.mode r head body := by
      refine analyses_of_flow hhead hperm hready hf hone hall.flow (fun j hj => ?_) fun j g hg => ?_
      · obtain ⟨m, hm, hdef⟩ := hmarks j (hgoals1 ▸ hj)
        rw [hgoals1] at hm
        rw [hp1] at hdef
        refine ⟨m, hm, Bool.eq_iff_iff.2 ⟨fun hmark => ?_, fun h => hkeeps'.marked _ (hdef h)⟩⟩
        -- A mark that was not there at first is on a goal that rules define.
        rcases hall.justified _ hmark with hmark | ⟨-, m', hm', hdef'⟩
        · simp only [Flow.marked] at hmark
          cases hget : t1.2.2.flow.goals[j + 1]? with
          | none => simp [hget] at hmark
          | some g => simp [hget, hwired.unmarked g (mem_of_getElem? hget)] at hmark
        · rw [hgoals1, hm] at hm'
          rw [Except.ok.inj hm', ← hp1, hdef']
      · obtain ⟨m, hm, hcases⟩ := hvars j g (by rw [hkeeps.goals, hgoals1, hg])
        rw [hkeeps.modeOf_eq, hgoals1] at hm
        rw [hkeeps.program.program.plugins, hkeeps.defines_eq, hp1] at hcases
        exact ⟨m, hm, hcases⟩
    refine ⟨⟨hw4.trans hcontinues.settings, ?_, ?_⟩,
      .inr ⟨out, _, hr4, fun info r' => .intro hanalyses ?_ ?_ ?_⟩⟩
    · exact hp4 ▸ hcontinues.program
    · exact fun hs => hp4 ▸ hcontinues.sound hs
    · rw [map_map]
      have : Step.operation ∘ (fun s : Step =>
          s.withType (t4.2.2.emission.types.get? s.target).join) = Step.operation := by
        funext s
        exact operation_withType s _
      rw [this]
      exact hemits
    · intro i y m e q hq
      obtain ⟨s, hs, heq⟩ := mem_map.1 hq
      cases s with
      | act i a => cases heq
      | call i y m e q =>
        cases heq
        obtain ⟨he, hq⟩ := hcalls _ _ _ _ _ hs
        rw [hall.depth, hdepth1, hdepth] at he hq
        exact ⟨he, hp4 ▸ hq⟩
    · intro i xs m hm
      obtain ⟨s, hs, heq⟩ := mem_map.1 hm
      cases s with
      | call i y m e q => cases heq
      | act i a =>
        cases heq
        rw [← hp1, ← hall.program.program.plugins]
        exact hplugin _ _ _ hs
  · obtain ⟨-, rfl⟩ := pure_ok.1 h4
    exact ⟨hcontinues, .inl (hall.result.trans (hresult₁.trans hresult))⟩

variable {t t' : World α × Program}

/-- The plan of a rule, whose calls are kept. -/
theorem planForRule_ok (hplan : ∀ fuel' < fuel, ∀ m,
      Moves (Continues S) (planAt schema fuel' m (d + 1) : Run α Program Plan))
    (h : planForRule schema fuel mode d r t = .ok plan t') :
    Continues S t t' ∧ RulePlanned t.2 (fun m e q => t'.2.plan? m e = some q) mode d r plan := by
  rcases fuel with _ | _ | fuel
  · simp [planForRule] at h
  · simp [planForRule, analyse] at h
  simp only [planForRule, bind_ok, lift_ok, beside_ok, settings_bind] at h
  obtain ⟨a, _, ⟨ha, rfl⟩, ⟨_, b⟩, _, ⟨u, h, rfl, rfl⟩, hresult, rfl⟩ := h
  obtain ⟨head, body, hhead, hperm, hready, hgoals, hmode, hdepth, hsteps, hnone⟩ := ofRule_ok ha
  obtain ⟨hcontinues, hend⟩ :=
    analyse_ok hhead hperm hready (hplan fuel (by omega)) hgoals hdepth hsteps hnone h
  refine ⟨hcontinues, ?_⟩
  rcases hend with hnone | ⟨out, inputs, hout, hplanned⟩
  · simp [Analysis.plan, hnone] at hresult
  · obtain ⟨info, rfl⟩ := plan_ok hout hresult
    exact hmode ▸ hplanned info _

/-- The plan of a mode is made of the plans of its rules. -/
theorem planRules_ok {P : Rule → Plan → Prop} {planRule : Rule → Run α Program Plan}
    (hrule : ∀ r t plan t', planRule r t = .ok plan t' → Continues S t t' ∧ (S t.2 → P r plan))
    (h : planRules planRule mode rules t = .ok plan t') :
    Continues S t t' ∧ (S t.2 → OfRules P rules plan) := by
  match rules with
  | [] => simp [planRules] at h
  | [r] =>
    obtain ⟨hcontinues, hplan⟩ := hrule r t plan t' h
    exact ⟨hcontinues, fun hs => .one (hplan hs)⟩
  | r :: r' :: rules =>
    simp only [planRules, bind_ok] at h
    obtain ⟨plans, _, hplans, rfl, rfl⟩ := h
    obtain ⟨hcontinues, hall⟩ := mapM_ok
      (fun r _ t plan t' h => (hrule r t plan t' h).1) hplans
    refine ⟨hcontinues, fun hs => .many (hall.imp ?_)⟩
    rintro r plan ⟨t1, t2, hbefore, hr, -⟩
    exact (hrule r t1 plan t2 hr).2 (hbefore.sound hs)

/-- The plans of rules whose calls are as they should be. -/
theorem planRules_sound (hd : 0 ≤ d) (hplan : ∀ fuel' < fuel, ∀ m,
      Moves (Continues (p0.Sound Q)) (planAt schema fuel' m (d + 1) : Run α Program Plan))
    (h : planRules (planForRule schema fuel mode d) mode rules t = .ok plan t') :
    Continues (p0.Sound Q) t t' ∧
      (p0.Sound Q t.2 → OfRules (RulePlanned p0 Q mode d) rules plan) := by
  refine planRules_ok (fun r t plan t' hr => ?_) h
  obtain ⟨hcontinues, hplanned⟩ := planForRule_ok hplan hr
  exact ⟨hcontinues, fun hs => hplanned.imp hs.alike.symm fun m q hq =>
    (hcontinues.sound hs).plans m (d + 1) q (by omega) hq⟩

@[simp] theorem keepPlan_ok {plan' : Plan} :
    keepPlan mode d plan t = .ok plan' t' ↔
      plan' = plan ∧ t' = (t.1, { t.2 with plans := t.2.plans.put (mode, d) plan }) := by
  simp only [keepPlan, bind_ok, update_ok, pure_ok]
  constructor
  · rintro ⟨_, _, rfl, rfl, rfl⟩
    exact ⟨rfl, rfl⟩
  · exact fun h => ⟨(), _, rfl, h.1.symm, h.2.symm⟩

/-- What planning a mode at a depth can do. -/
theorem planAt_cases (h : planAt schema fuel mode d t = .ok plan t') :
    (t.2.plan? mode d = some plan ∧ t' = t) ∨
    (t.2.plan? mode d = none ∧ t.2.maxDepth.isExceededBy d = .ok true ∧
      keepPlan mode d (.null {} mode) t = .ok plan t') ∨
    (t.2.plan? mode d = none ∧ t.2.maxDepth.isExceededBy d = .ok false ∧
      ∃ fuel' made u v, fuel = fuel' + 1 ∧ planRules (planForRule schema fuel' mode d) mode
        ((t.2.rulesFor? mode).getD []) t = .ok made u ∧ keepPlan mode d made u = .ok made v ∧
      (if d ≠ 0 then pure made else finishPlan t.2.normalization mode made) v = .ok plan t') := by
  cases fuel with
  | zero => simp [planAt] at h
  | succ fuel =>
  simp only [planAt, state_bind] at h
  cases hkept : t.2.plan? mode d with
  | some kept =>
    rw [hkept] at h
    obtain ⟨rfl, rfl⟩ := pure_ok.1 h
    exact .inl ⟨rfl, rfl⟩
  | none =>
    rw [hkept] at h
    simp only [bind_ok, lift_ok] at h
    obtain ⟨exceeded, _, ⟨hex, rfl⟩, h⟩ := h
    cases exceeded with
    | true => exact .inr (.inl ⟨rfl, hex, h⟩)
    | false =>
      obtain ⟨made, u, hmade, h⟩ := bind_ok.1 h
      obtain ⟨_, v, hkeep, hlast⟩ := bind_ok.1 h
      obtain rfl := (keepPlan_ok.1 hkeep).1
      exact .inr (.inr ⟨rfl, hex, fuel, _, u, v, rfl, hmade, hkeep, hlast⟩)

/-- Keeping a plan that is as it should be. -/
theorem keepPlan_sound (hQ : p0.Grants Q) {plan' : Plan} {t u t' : World α × Program}
    (ht : Continues (p0.Sound Q) t u) (hplan : p0.Sound Q t.2 → Q mode d plan)
    (h : keepPlan mode d plan u = .ok plan' t') : Continues (p0.Sound Q) t t' := by
  obtain ⟨rfl, rfl⟩ := keepPlan_ok.1 h
  refine ⟨ht.settings, ht.program.trans ⟨rfl, rfl, rfl, rfl⟩, fun hs => ?_⟩
  have hu := ht.sound hs
  refine ⟨hu.alike.trans ⟨rfl, rfl, rfl, rfl⟩, ?_⟩
  intro m e q he hq
  simp only [Program.plan?, Dictionary.get?_put] at hq
  split at hq
  · next hkey =>
    obtain ⟨hmode, rfl⟩ := (planKey_beq_iff mode m d e).1 hkey
    obtain rfl := Option.some.inj hq
    exact hQ.key mode m d _ hmode (hplan hs)
  · exact hu.plans m e q he hq

/-- Every plan for a call is as it should be. -/
theorem planAt_ok (hQ : p0.Grants Q) (fuel : ℕ) :
    ∀ mode d, 0 < d → ∀ (t : World α × Program) plan t',
      planAt schema fuel mode d t = .ok plan t' →
      Continues (p0.Sound Q) t t' ∧ (p0.Sound Q t.2 → Q mode d plan) := by
  -- A plan is made from plans that are two turns of the fuel further, by way of its rules.
  induction fuel using Nat.strong_induction_on with
  | _ fuel ih =>
  intro mode d hd t plan t' h
  obtain ⟨hkept, rfl⟩ | ⟨-, hex, h⟩ | ⟨-, hex, fuel, made, u, v, rfl, hmade, hkeep, h⟩ :=
    planAt_cases h
  · exact ⟨Settled.refl _, fun hs => hs.plans mode d plan hd hkept⟩
  · have hnull : p0.Sound Q t.2 → Q mode d (.null {} mode) := fun hs =>
      hQ.null mode d (by rw [← hs.alike.maxDepth, hex])
    exact ⟨keepPlan_sound hQ (Settled.refl t) hnull h, (keepPlan_ok.1 h).1 ▸ hnull⟩
  · rw [if_pos hd.ne'] at h
    obtain ⟨rfl, rfl⟩ := pure_ok.1 h
    obtain ⟨hbefore, hrules⟩ := planRules_sound hd.le (fun fuel' hlt m t plan t' h =>
      (ih fuel' (by omega) m (d + 1) (by omega) t plan t' h).1) hmade
    have hplan : p0.Sound Q t.2 → Q mode d made := fun hs => by
      refine hQ.made mode d made (by rw [← hs.alike.maxDepth, hex]) ?_
      rw [ModePlanned, ← hs.alike.rulesFor?_eq]
      exact hrules hs
    exact ⟨keepPlan_sound hQ hbefore hplan hkeep, hplan⟩

end Run

end BeliefLogic
