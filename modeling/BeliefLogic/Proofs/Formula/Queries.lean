import BeliefLogic.Proofs.Formula.Meaning
import BeliefLogic.Proofs.Program.Kept
import BeliefLogic.Proofs.Program.Support

/-!
# Formulas of queries

Whatever was derived before, the formula of a query means what its plan gives on a row.
-/

namespace BeliefLogic

open Outcome Run List Dictionary

theorem Plan.named_sumOf {qs : List Plan} (h : ∀ q ∈ qs, q.Named) : (Plan.sumOf qs).Named := by
  have hsum : (Plan.sum {} qs).Named := ⟨trivial, Plan.allMeet_iff.2 h⟩
  exact hsum.congr .named (Plan.bare_sumOf qs).symm

variable {mode : Mode}

/-- The names in an action of a rule are those of its goals. -/
theorem Circuit.Analyses.named_of_arises {c : Circuit} {p : Program} {r : Rule}
    {head : Goal} {body : List Goal} (h : c.Analyses p mode r head body)
    (hnames : ∀ g ∈ body, g.arity = 2 → Mode.ReadsBack g.functor) {t : String} {a : Action}
    (ha : c.Arises (.act t a)) : a.Named := by
  have hread {j : ℕ} {m : Mode} (hm : c.mode? (j + 1) = some m) (harity : m.arity = 2) :
      Mode.ReadsBack m.functor := by
    obtain ⟨g, hg, hf, ha, -⟩ := h.goal_of_mode hm
    rw [hf]
    exact hnames g (mem_of_getElem? hg) (ha ▸ harity)
  generalize ho : Operation.act t a = o at ha
  cases ha with
  | assigned _ hin hm _ harity hconst =>
    cases ho
    obtain ⟨g, b, -, -, -, hvar, hget⟩ := h.assigned_constant hin hm harity hconst
    exact hget ▸ hvar
  | forward _ _ hm _ => cases ho; exact hread hm
  | call => cases ho
  | row => cases ho; trivial
  | preimage _ _ hm _ => cases ho; exact hread hm
  | backward _ _ hm => cases ho; exact hread hm
  | factor => cases ho; trivial
  | weight => cases ho; trivial

section

variable {p : Program} {plan : Plan}

/-- The names in a plan are those of its goals and of the plans that it calls. -/
theorem RulePlanned.named {Q : Mode → ℤ → Plan → Prop} {d : ℤ} {r : Rule}
    (h : RulePlanned p Q mode d r plan) (hplugins : ∀ m, p.plugins.has m = false)
    (hnames : ∀ g ∈ r.body, g.arity = 2 → Mode.ReadsBack g.functor)
    (hcalls : ∀ m q, Q m (d + 1) q → q.Named) : plan.Named := by
  obtain ⟨hc, hemits, hsteps, hplug⟩ := h
  have hinside := Step.isInside_of_plugins fun i xs m hm => by
    simpa [hplugins m] using hplug i xs m hm
  have harises := hemits.arises hinside
  refine ⟨trivial, Step.allMeet_iff.2 fun t ht => ?_⟩
  cases t with
  | act i a =>
    exact hc.named_of_arises (fun g hg => hnames g (hc.perm.mem_iff.1 hg))
      (harises _ (mem_map_of_mem ht))
  | call i x m e q => exact ⟨trivial, hcalls m q (hsteps i x m e q ht).2⟩

theorem Program.upholds_named (hplugins : ∀ m, p.plugins.has m = false)
    (hnames : ∀ r ∈ p.theory.rules, ∀ g ∈ r.body, g.arity = 2 → Mode.ReadsBack g.functor) :
    p.Upholds fun _ _ q => q.Named where
  null _ _ _ := trivial
  made mode d plan _ h := by
    refine h.holds (fun r hr q hq => ?_) fun _ => Plan.named_sumOf
    exact hq.named hplugins (hnames r (Program.mem_rules_of_rulesFor hr)) fun _ _ hq => hq
  key _ _ _ _ _ h := h
  number _ _ q copying n table _ h := h.congr .named (Plan.bare_number copying q n table).symm

/-- The names in a query's plan are read back. Logarithms have no formula. -/
theorem QueryPlanned.named (hnamed : p.Upholds fun _ _ q => q.Named)
    (h : QueryPlanned p (fun _ _ q => q.Named) mode plan) :
    plan.Named ∨ ∃ i q, plan = .softmax i q ∧ (q.Named ∨ ∃ j r, q = .log j r) := by
  obtain ⟨q, hq, rfl | ⟨i, rfl⟩ | ⟨-, i, j, rfl⟩⟩ := h.normalized hnamed
  · exact .inl hq
  · exact .inr ⟨i, q, rfl, .inl hq⟩
  · exact .inr ⟨i, _, rfl, .inr ⟨j, q, rfl⟩⟩

end

variable {α : Type}

namespace Run

variable {mode : Mode} {plan : Plan} {draft : Draft} {f : Draft → Draft} {x : Unit}
  {t t' u : Deriving.State α}

@[simp] theorem updateDraft_ok :
    updateDraft mode f t = .ok x t' ↔
      (t.1, (t.2.1, { t.2.2 with drafts := t.2.2.drafts.put mode (f (t.2.2.draft mode)) })) = t' := by
  simp [updateDraft, updateFormulary_ok]

theorem queryPlan_ok {t t' : World α × Model α} :
    queryPlan mode t = .ok plan t' ↔ ∃ u,
      compile (t.2.database.map (·.schema)) mode (t.1, t.2.program) = .ok plan u ∧
        (u.1, { t.2 with program := u.2 }) = t' := by
  simp only [queryPlan, onProgram, bind_ok, state_ok, focus_ok]
  constructor
  · rintro ⟨_, _, ⟨rfl, rfl⟩, h⟩
    exact h
  · intro h
    exact ⟨_, _, ⟨rfl, rfl⟩, h⟩

theorem deriveLoss_ok [Scalar α] {d : Derived} {loss : Loss} (h : deriveLoss d t = .ok loss t') :
    t' = t := by
  simp only [deriveLoss, bind_ok, withModel_database_ok, formulary_bind] at h
  obtain ⟨_, _, ⟨-, rfl⟩, -, rfl⟩ := h
  rfl

variable [ExactScalar α] {db : Database α} {n : ℕ}

/-- Shared rows are named like variables, under which no entity stands. -/
theorem keeps_nullSmoother (type : String) (m : Matrix α) :
    db.Keeps n ⟨"_nullSmoother_" ++ type, 0⟩ m := by
  have hlist : ("_nullSmoother_" ++ type).toList = "_nullSmoother_".toList ++ type.toList :=
    String.toList_append
  have hne (name : String) (h : name.toList.take 2 ≠ ['_', 'n']) :
      (⟨"_nullSmoother_" ++ type, 0⟩ : Predicate) ≠ ⟨name, 0⟩ := by
    intro heq
    rw [← (Predicate.mk.inj heq).1, hlist] at h
    exact h rfl
  refine ⟨by simp, by simp, fun h => absurd h (hne _ (by decide)),
    fun h => absurd h (hne _ (by decide)), fun _ h => ?_⟩
  simp only [isVariableName, hlist] at h
  cases h

theorem Derives.of_handles (hmodel : t'.2.1 = t.2.1) (hdrafts : t'.2.2.drafts = t.2.2.drafts)
    (hhandles : t'.2.2.handles = t.2.2.handles) : Derives db n t t' := by
  have hfind : t'.2.2.handle? = t.2.2.handle? := by
    funext key
    rw [Formulary.handle?, Formulary.handle?, hhandles]
  exact ⟨hmodel, hdrafts, fun key hd hk => hfind ▸ hk, fun hf key hd hk => hf key hd (hfind ▸ hk)⟩

/-- Naming the rows that all formulas share. -/
theorem nameSharedRows_ok (h : nameSharedRows t = .ok x t') : Derives db n t t' := by
  have hrow (type : String) (row : Except Error (Matrix α)) :
      Moves (Derives db n) (nameRow ("_nullSmoother_" ++ type) row) := fun _ _ _ h =>
    (nameRow_ok (fun m _ => keeps_nullSmoother type m) h).1
  simp only [nameSharedRows, formulary_bind] at h
  split at h
  · obtain ⟨-, rfl⟩ := pure_ok.1 h
    exact Settled.refl t
  · simp only [bind_ok, withModel_database_ok] at h
    obtain ⟨db', _, ⟨hdb', rfl⟩, _, u, hu, h⟩ := h
    have hu : Derives db n t u :=
      moves_forIn (fun type _ => (hrow type _).bind fun _ => moves_pure) _ _ _ hu
    refine Settled.trans hu ?_
    split at h
    · simp only [bind_ok, lift_ok, updateFormulary_ok] at h
      obtain ⟨_, _, ⟨-, rfl⟩, _, _, rfl, rfl⟩ := h
      exact .of_handles rfl rfl rfl
    · simp only [updateFormulary_ok] at h
      subst h
      exact .of_handles rfl rfl rfl

/-- Formulas were derived, and a draft was put under a mode. -/
structure DraftedAs (db : Database α) (n : ℕ) (mode : Mode) (draft : Draft)
    (t t' : Deriving.State α) : Prop where
  model : t'.2.1 = t.2.1
  handles : t.2.2.Extends t'.2.2
  faithful : t.2.2.Faithful db n → t'.2.2.Faithful db n
  drafts : ∀ m, t'.2.2.drafts.get? m = if mode == m then some draft else t.2.2.drafts.get? m

theorem DraftedAs.of_derives (h : Derives db n t u) (h' : DraftedAs db n mode draft u t') :
    DraftedAs db n mode draft t t' where
  model := h'.model.trans h.model
  handles key hd hk := h'.handles key hd (h.handles key hd hk)
  faithful hf := h'.faithful (h.faithful hf)
  drafts m := by rw [h'.drafts, h.drafts]

theorem DraftedAs.draft_eq (h : DraftedAs db n mode draft t t') : t'.2.2.draft mode = draft := by
  rw [Formulary.draft, h.drafts mode, if_pos BEq.rfl, Option.getD_some]

theorem draftedAs_update (h : updateDraft mode f t = .ok x t') :
    DraftedAs db n mode (f (t.2.2.draft mode)) t t' := by
  obtain rfl := updateDraft_ok.1 h
  exact ⟨rfl, fun _ _ hk => hk, id, fun m => get?_put _ _ _ _⟩

theorem DraftedAs.update (h : DraftedAs db n mode draft t u) (h' : updateDraft mode f u = .ok x t')
    : DraftedAs db n mode (f draft) t t' := by
  have hu : DraftedAs db n mode _ u t' := draftedAs_update h'
  rw [h.draft_eq] at hu
  refine ⟨hu.model.trans h.model, fun key hd hk => hu.handles key hd (h.handles key hd hk),
    fun hf => hu.faithful (h.faithful hf), fun m => ?_⟩
  rw [hu.drafts, h.drafts]
  split <;> rfl

end Run

variable [ExactScalar α]

/-- A draft has the formula of the weights under the normalization. -/
def Draft.Means (db : Database α) (n : ℕ) (f : Formulary α) (draft : Draft)
    (q : Plan) : Prop :=
  ∃ d, draft.proofCount = some d ∧ (∀ e ∈ d.inputs, ∃ name type, e = .input name type) ∧
    d.formula.Means db n f d.inputs q

variable {db : Database α} {n : ℕ} {draft : Draft}

theorem Draft.Means.mono {f f' : Formulary α} {q : Plan} (h : draft.Means db n f q) (hext : f.Extends f') :
    draft.Means db n f' q := by
  obtain ⟨d, hd, hinputs, hmeans⟩ := h
  exact ⟨d, hd, hinputs, fun σ hσ => hmeans σ (hext.readBy hσ)⟩

namespace Run

variable {mode : Mode} {plan : Plan} {x : Unit} {t t' : Deriving.State α}

/-- Deriving the formulas of a query from its plan. -/
theorem deriveDraft_ok (hdb : db.Regular n) (hmodel : t.2.1.database = some db)
    (hplan : plan.Named ∨ ∃ i q, plan = .softmax i q ∧ (q.Named ∨ ∃ j r, q = .log j r))
    (h : deriveDraft mode none plan t = .ok x t') :
    ∃ draft, DraftedAs db n mode draft t t' ∧ draft.plan = (t.2.2.draft mode).plan ∧
      ∀ i q, plan = .softmax i q → draft.Means db n t'.2.2 q := by
  obtain ⟨_, t1, h1, h⟩ := bind_ok.1 h
  have hd1 : Derives db n t t1 := nameSharedRows_ok h1
  have hmodel1 : t1.2.1.database = some db := hd1.model ▸ hmodel
  have hplans {u : Deriving.State α} (hu : Derives db n t u) :
      u.2.2.draft mode = t.2.2.draft mode := by
    rw [Formulary.draft, Formulary.draft, hu.drafts]
  rcases hplan with hnamed | ⟨i, q, rfl, hnamed | ⟨j, r, rfl⟩⟩
  · -- Without normalization there is no formula of the weights apart.
    have h : ∃ text d u, (do warn text; deriveFormula none plan) t1 = .ok d u ∧ (do
        updateDraft mode fun x => { x with inference := some d }
        let loss ← deriveLoss d
        updateDraft mode fun x => { x with loss := some loss }) u = .ok x t' := by
      cases plan with
      | softmax | log => exact hnamed.1.elim
      | null | sum | sequence =>
        obtain ⟨_, u, hwarn, h⟩ := bind_ok.1 h
        obtain ⟨d, v, hd, h⟩ := bind_ok.1 h
        exact ⟨_, d, v, bind_ok.2 ⟨_, u, hwarn, hd⟩, h⟩
    obtain ⟨text, d, u, hu, h⟩ := h
    simp only [warn, note, bind_ok, modify_ok] at hu
    obtain ⟨_, _, rfl, hu⟩ := hu
    simp only [bind_ok] at h
    obtain ⟨_, v, hv, loss, w, hw, h⟩ := h
    obtain rfl := deriveLoss_ok hw
    have hderived := (hnamed.derived hdb plan none _ _ _ (by exact hmodel1) hu).derives
    have hd2 : Derives db n t u := Settled.trans hd1
      ⟨hderived.model, hderived.drafts, hderived.handles, hderived.faithful⟩
    refine ⟨_, ((draftedAs_update hv).of_derives hd2).update h, by rw [hplans hd2], ?_⟩
    rintro i q rfl
    exact hnamed.1.elim
  · simp only [bind_ok] at h
    obtain ⟨d, u, hu, _, v, hv, _, _, ⟨rfl, rfl⟩, _, w, hw, loss, z, hz, h⟩ := h
    obtain rfl := deriveLoss_ok hz
    have hderived := hnamed.derived hdb q none _ _ _ hmodel1 hu
    have hd2 : Derives db n t u := Settled.trans hd1 hderived.derives
    have hafter : DraftedAs db n mode _ u t' := ((draftedAs_update hv).update hw).update h
    refine ⟨_, hafter.of_derives hd2, by rw [hplans hd2], ?_⟩
    rintro _ _ ⟨rfl, rfl⟩
    exact Draft.Means.mono ⟨d, rfl, hderived.new rfl, hderived.means⟩ hafter.handles
  · obtain ⟨d, u, hu, -⟩ := bind_ok.1 h
    simp [deriveFormula] at hu

/-- Queries are planned and formulas derived. -/
inductive Session (db : Database α) (p : Program) : Model α × Formulary α → Prop where
  | start {m} : m.database = some db → m.program = p → Session db p (m, {})
  | query {m f w mode plan u} : Session db p (m, f) → queryPlan mode (w, m) = .ok plan u →
      Session db p (u.2, f)
  | draft {s w mode draft t'} : Session db p s → draftFor mode none (w, s) = .ok draft t' →
      Session db p t'.2

/-- Formulas are as they should be: handles have the values of the database, and drafts the plans
that are kept, with formulas that mean them. -/
structure Drafted (db : Database α) (n : ℕ) (p : Program) (s : Model α × Formulary α) : Prop where
  database : s.1.database = some db
  program : p.Ready (fun _ _ q => q.Named) s.1.program
  faithful : s.2.Faithful db n
  drafts : ∀ mode draft, s.2.drafts.get? mode = some draft → ∃ plan, draft.plan = some plan ∧
    s.1.program.plan? mode 0 = some plan ∧ ∀ i q, plan = .softmax i q → draft.Means db n s.2 q

variable {p : Program} {s : Model α × Formulary α}

theorem Drafted.queryPlan (h : Drafted db n p s) (hnamed : p.Upholds fun _ _ q => q.Named)
    {w : World α} {u : World α × Model α} (hplan : queryPlan mode (w, s.1) = .ok plan u) :
    Drafted db n p (u.2, s.2) ∧ u.2.program.plan? mode 0 = some plan ∧
      ∃ m, QueryPlanned p (fun _ _ q => q.Named) m plan := by
  obtain ⟨v, hv, rfl⟩ := queryPlan_ok.1 hplan
  obtain ⟨-, hready, hkept, hbefore, hplanned⟩ :=
    compile_ready hnamed h.program hv
  refine ⟨⟨h.database, hready, h.faithful, fun m draft hm => ?_⟩, hkept, hplanned⟩
  obtain ⟨q, hq, hkept, hmeans⟩ := h.drafts m draft hm
  exact ⟨q, hq, hbefore m q hkept, hmeans⟩

theorem Drafted.draftFor (h : Drafted db n p s) (hnamed : p.Upholds fun _ _ q => q.Named)
    (hdb : db.Regular n) {w : World α} (hdraft : draftFor mode none (w, s) = .ok draft t') :
    Drafted db n p t'.2 ∧ t'.2.2.drafts.get? mode = some draft := by
  simp only [Run.draftFor, bind_ok, updateFormulary_ok, formulary_bind] at hdraft
  obtain ⟨_, _, rfl, hdraft⟩ := hdraft
  cases hknown : s.2.drafts.get? mode with
  | some known =>
    have hcontains : s.2.drafts.contains mode = true := by simp [Dictionary.contains, hknown]
    simp only [hcontains] at hdraft
    obtain ⟨_, _, rfl⟩ := hdraft
    refine ⟨⟨h.database, h.program, h.faithful, h.drafts⟩, ?_⟩
    simp [Formulary.draft, hknown]
  | none =>
    have hcontains : s.2.drafts.contains mode = false := by simp [Dictionary.contains, hknown]
    simp only [hcontains, Bool.not_false, if_true, bind_ok, pure_ok, withModel, focus_ok,
      formulary_bind] at hdraft
    obtain ⟨_, t1, h1, plan, t2, ⟨u, hu, rfl⟩, _, t3, h3, _, t4, h4, rfl, rfl⟩ :=
      hdraft
    obtain rfl := updateDraft_ok.1 h1
    obtain ⟨hplanned, hkept, m, hm⟩ := h.queryPlan hnamed hu
    have h3 : DraftedAs db n mode _ _ t3 := draftedAs_update h3
    obtain ⟨draft, h4, hplan, hmeans⟩ := deriveDraft_ok hdb
      (h3.model ▸ hplanned.database) (hm.named hnamed) h4
    rw [h3.draft_eq] at hplan
    have hmodel := h4.model.trans h3.model
    have hext : s.2.Extends t4.2.2 := fun key hd hk => h4.handles key hd (h3.handles key hd hk)
    have hself : t4.2.2.drafts.get? mode = some draft := by rw [h4.drafts, if_pos BEq.rfl]
    refine ⟨⟨hmodel ▸ hplanned.database, hmodel ▸ hplanned.program,
      h4.faithful (h3.faithful h.faithful), fun m draft' hdraft' => ?_⟩, ?_⟩
    · rw [h4.drafts, h3.drafts] at hdraft'
      by_cases hm : (mode == m) = true
      · -- The draft that was made, under any mode with the same text.
        obtain rfl : draft = draft' := by simpa [hm] using hdraft'
        refine ⟨plan, hplan, ?_, hmeans⟩
        rw [hmodel, ← hkept]
        exact (get?_congr _ ((planKey_beq_iff mode m 0 0).2
          ⟨(Mode.beq_iff_key_eq mode m).1 hm, rfl⟩)).symm
      · have hbefore : s.2.drafts.get? m = some draft' := by
          simpa [hm] using hdraft'
        obtain ⟨q, hq, hkept, hmeans⟩ := hplanned.drafts m draft' hbefore
        exact ⟨q, hq, hmodel ▸ hkept, fun i r hr => (hmeans i r hr).mono hext⟩
    · rw [Formulary.draft, hself, Option.getD_some]

/-- In every session formulas are as they should be. -/
theorem Session.drafted (hdb : db.Regular n) (hfresh : p.plans = {})
    (hnamed : p.Upholds fun _ _ q => q.Named) (h : Session db p s) : Drafted db n p s := by
  induction h with
  | start hdatabase hprogram =>
    refine ⟨hdatabase, by rw [hprogram]; exact Program.ready_of_fresh hfresh, fun key hd hk => ?_,
      fun m draft hm => ?_⟩
    · simp [Formulary.handle?] at hk
    · simp [Dictionary.get?, Dictionary.lookup] at hm
  | query _ hplan ih => exact (ih.queryPlan hnamed hplan).1
  | draft _ hdraft ih => exact (ih.draftFor hnamed hdb hdraft).1

end Run

/-- Formulas mean what plans give. Let names be read back as they are written, and let nothing be
defined outside. Whatever was planned and derived before, the draft of a query has its plan, handles
have the values of the database, and the formula of the weights means the row that the plan gives,
before it is normalized, for the row that its placeholders mean. -/
theorem draftFor_proofCount_means (hdb : db.Regular n) {p : Program} (hfresh : p.plans = {})
    (hplugins : ∀ m, p.plugins.has m = false)
    (hnames : ∀ r ∈ p.theory.rules, ∀ g ∈ r.body, g.arity = 2 → Mode.ReadsBack g.functor)
    {mode : Mode} {t t' : World α × (Model α × Formulary α)} (hsession : Session db p t.2)
    (hdraft : draftFor mode none t = .ok draft t') :
    ∃ plan, draft.plan = some plan ∧
      queryPlan mode (t'.1, t'.2.1) = .ok plan (t'.1, t'.2.1) ∧ t'.2.2.Faithful db n ∧
      ∀ i q, plan = .softmax i q → ∃ d, draft.proofCount = some d ∧
        (∀ e ∈ d.inputs, ∃ name type, e = .input name type) ∧
        ∀ x y input s s', x.Shaped 1 n →
          (∀ name type, .input name type ∈ d.inputs → input name = x.entry 0) →
          Plan.eval db [x] q s = .ok y s' →
            y.Shaped 1 n ∧ d.formula.Denotes (t'.2.2.reading n input) (y.entry 0) := by
  have hnamed := Program.upholds_named hplugins hnames
  obtain ⟨hdrafted, hget⟩ := (hsession.drafted hdb hfresh hnamed).draftFor hnamed hdb hdraft
  obtain ⟨plan, hplan, hkept, hmeans⟩ := hdrafted.drafts mode draft hget
  refine ⟨plan, hplan, queryPlan_ok.2 ⟨_, compile_of_kept hkept, rfl⟩, hdrafted.faithful,
    fun i q hq => ?_⟩
  obtain ⟨d, hd, hinputs, hmeans⟩ := hmeans i q hq
  refine ⟨d, hd, hinputs, fun x y input s s' hx hbound hy => ?_⟩
  refine hmeans _ (hdrafted.faithful.readBy input) s.1.settings x y hx (fun e he => ?_)
    (Plan.eval_ok q hy).1
  obtain ⟨name, type, rfl⟩ := hinputs e he
  exact hbound name type he ▸ Formula.denotes_input name type

namespace Sample

def graph (p : Program) : Model ℚ := { program := p, database := some Sample.database }

/-- Steps along paths, numbered as under a normalization. -/
def steps : Plan := ((Plan.number false plan 2).run {}).1.1

theorem readsBack_edge : Mode.ReadsBack "edge" := by
  intro m hm
  have hparse : Mode.parse ("edge" ++ "(i,o)") = .ok (.inputOutput "edge") := by
    with_unfolding_all rfl
  exact (ok_unique hparse hm).symm

/-- The formulas once paths were asked for. -/
def asked : Formulary ℚ where
  current := some ends
  drafts := ⟨[(ends, { plan := some query })]⟩

/-- The handle of the row that all formulas share. -/
def shared (r : Matrix ℚ) : Handle ℚ :=
  ⟨⟨"_nullSmoother_" ++ thing, 0⟩, "_nullSmoother_" ++ thing, r, true⟩

theorem nameSharedRows_asked (p : Program) : ∃ r,
    nameSharedRows (Sample.world, (graph p, asked)) = .ok () (Sample.world, (graph p,
      { asked with handles := [shared r], onlyType := some thing, prepared := true })) := by
  obtain ⟨r, hr⟩ : ∃ r : Matrix ℚ, (Sample.database.dim (some thing) >>= fun n =>
      Database.nullRows 1 n >>= fun nulls =>
        nulls.scale (Scalar.ofLiteral (.decimal false 1 (-5)))) = .ok r := by
    rw [regular_database.dim_eq]
    with_unfolding_all exact ⟨_, rfl⟩
  have hrow : nameRow ("_nullSmoother_" ++ thing) (.ok r) (Sample.world, (graph p, asked)) =
      .ok (.handle ⟨"_nullSmoother_" ++ thing, 0⟩ ("_nullSmoother_" ++ thing))
        (Sample.world, (graph p, { asked with handles := [shared r] })) := rfl
  refine ⟨r, bind_ok.2 ⟨asked, _, rfl, bind_ok.2 ⟨Sample.database, _, rfl, ?_⟩⟩⟩
  refine bind_ok.2 ⟨(), (Sample.world, (graph p, { asked with handles := [shared r] })), ?_, rfl⟩
  exact bind_ok.2 ⟨_, _, bind_ok.2 ⟨_, _, hr ▸ hrow, rfl⟩, rfl⟩

theorem deriveFormula_steps (p : Program) (r : Matrix ℚ) : ∃ d t',
    deriveFormula none steps (Sample.world, (graph p,
      { asked with handles := [shared r], onlyType := some thing, prepared := true })) =
        .ok d t' ∧ t'.2.1 = graph p ∧ t'.2.2.drafts = asked.drafts := by
  with_unfolding_all exact ⟨_, _, rfl, rfl, rfl⟩

theorem deriveDraft_asked (p : Program) : ∃ t',
    deriveDraft ends none query (Sample.world, (graph p, asked)) = .ok () t' ∧
      (t'.2.2.draft ends).plan = some query := by
  obtain ⟨r, hr⟩ := nameSharedRows_asked p
  obtain ⟨d, u, hu, hmodel, hdrafts⟩ := deriveFormula_steps p r
  have hloss (e : Derived) (f : Formulary ℚ) :
      ∃ loss, deriveLoss e (u.1, (u.2.1, f)) = .ok loss (u.1, (u.2.1, f)) := by
    refine ⟨_, bind_ok.2 ⟨_, _, rfl, bind_ok.2 ⟨Sample.database, _, ?_, rfl⟩⟩⟩
    exact withModel_database_ok.2 ⟨by rw [hmodel]; rfl, rfl⟩
  obtain ⟨loss, hloss⟩ := hloss _ _
  refine ⟨_, bind_ok.2 ⟨(), _, hr, bind_ok.2 ⟨d, u, hu, bind_ok.2 ⟨(), _, updateDraft_ok.2 rfl,
    bind_ok.2 ⟨_, _, rfl, bind_ok.2 ⟨(), _, updateDraft_ok.2 rfl, bind_ok.2 ⟨loss, _, hloss,
      updateDraft_ok.2 rfl⟩⟩⟩⟩⟩⟩, ?_⟩
  simp only [Formulary.draft, hdrafts]
  rfl

theorem exists_draftFor_ends : ∃ draft t',
    draftFor ends none (Sample.world, (graph normalized, {})) = .ok draft t' ∧
      draft.plan = some query := by
  obtain ⟨p', hplan⟩ := compile_paths
  obtain ⟨t', ht', hdraft⟩ := deriveDraft_asked p'
  have hquery : queryPlan ends (Sample.world, graph normalized) =
      .ok query (Sample.world, graph p') := queryPlan_ok.2 ⟨_, hplan, rfl⟩
  refine ⟨t'.2.2.draft ends, t', bind_ok.2 ⟨{}, _, rfl, bind_ok.2 ⟨(), _, rfl, ?_⟩⟩, hdraft⟩
  exact bind_ok.2 ⟨(), _, updateDraft_ok.2 rfl, bind_ok.2 ⟨query, _, focus_ok.2 ⟨_, hquery, rfl⟩,
    bind_ok.2 ⟨(), _, updateDraft_ok.2 rfl, bind_ok.2 ⟨(), t', ht',
      bind_ok.2 ⟨_, _, rfl, rfl⟩⟩⟩⟩⟩

end Sample

open Sample in
/-- The formula for paths from the first entity. -/
theorem draftFor_proofCount_means_paths : ∃ draft t' d y s',
    draftFor ends none (Sample.world, (graph normalized, {})) = .ok draft t' ∧
      draft.plan = some query ∧ draft.proofCount = some d ∧
      Plan.eval Sample.database [row] steps (Sample.world, {}) = .ok y s' ∧ y.entry 0 2 = 34 ∧
      d.formula.Denotes (t'.2.2.reading 3 fun _ => row.entry 0) (y.entry 0) := by
  obtain ⟨draft, t', hdraft, hplan⟩ := exists_draftFor_ends
  have hnames : ∀ r ∈ normalized.theory.rules, ∀ g ∈ r.body, g.arity = 2 →
      Mode.ReadsBack g.functor := by
    intro r hr g hg harity
    obtain rfl : r = paths := mem_singleton.1 hr
    have hedge : g.functor = "edge" := by
      simp only [paths, mem_cons, not_mem_nil, or_false] at hg
      rcases hg with rfl | rfl | rfl
      · rfl
      · exact absurd harity (by decide)
      · rfl
    exact hedge ▸ readsBack_edge
  have hsession : Session Sample.database normalized (graph normalized, {}) := .start rfl rfl
  obtain ⟨_, hplan', -, -, hmeans⟩ := draftFor_proofCount_means regular_database rfl
    (fun _ => rfl) hnames hsession hdraft
  obtain rfl := Option.mem_unique hplan hplan'
  obtain ⟨d, hd, -, hmeans⟩ := hmeans _ steps rfl
  obtain ⟨s', hs'⟩ := Plan.exists_eval_number regular_database shaped_row
    (t := (Sample.world, {})) ⟨rfl, rfl⟩ result_plan false 2 {}
  obtain ⟨-, hdenotes⟩ := hmeans row _ (fun _ => row.entry 0) _ _ shaped_row (fun _ _ _ => rfl) hs'
  exact ⟨draft, t', d, _, s', hdraft, hplan, hd, hs', by decide +kernel, hdenotes⟩

/-- If a query without a draft cannot be planned, the request for its formulas fails in the same
way, but leaves an empty draft. While that is kept, later requests succeed with it, whatever becomes
of rules and database. -/
theorem draftFor_after_error {β : Type} [Scalar β] (shared : Option (List Formula))
    {t : Deriving.State β} (hnew : t.2.2.drafts.get? mode = none) {e : Error}
    {u : World β × Model β} (hplan : queryPlan mode (t.1, t.2.1) = .error e u) :
    ∃ f, draftFor mode shared t = .error e (u.1, (u.2, f)) ∧
      f.drafts = t.2.2.drafts.put mode {} ∧
      ∀ v : Deriving.State β, v.2.2.drafts.get? mode = f.drafts.get? mode →
        ∀ shared', ∃ v', draftFor mode shared' v = .ok {} v' := by
  let f : Formulary β := { t.2.2 with current := some mode, drafts := t.2.2.drafts.put mode {} }
  refine ⟨f, ?_, rfl, fun v hv shared' => ⟨(v.1, (v.2.1, { v.2.2 with current := some mode })), ?_⟩⟩
  · have hbegun : updateDraft mode id (t.1, (t.2.1, { t.2.2 with current := some mode })) =
        .ok () (t.1, (t.2.1, f)) := by
      simp [Formulary.draft, hnew, f]
    have hfails : withModel (queryPlan mode) (t.1, (t.2.1, f)) = .error e (u.1, (u.2, f)) := by
      simp only [withModel, focus, hplan]
    rw [draftFor, formulary_bind,
      bind_of_ok (b := ()) (updateFormulary_ok.2 rfl),
      if_pos (by simp [Dictionary.contains, hnew]), bind_of_ok hbegun, bind_of_error hfails]
  · have hkept : v.2.2.drafts.get? mode = some {} := hv.trans (by simp [f])
    rw [draftFor, formulary_bind,
      bind_of_ok (b := ()) (updateFormulary_ok.2 rfl),
      if_neg (by simp [Dictionary.contains, hkept])]
    exact bind_ok.2 ⟨_, _, rfl, by simp [Formulary.draft, hkept]⟩

def Sample.lost : Mode := ⟨⟨"lost", ["i", "o"]⟩⟩

open Sample in
/-- A relation without rules. -/
theorem draftFor_after_error_lost :
    ∃ e t u, draftFor lost none (Sample.world, (graph normalized, {})) = .error e t ∧
      draftFor lost none t = .ok {} u := by
  obtain ⟨e, u, hplan⟩ : ∃ e u, queryPlan lost (Sample.world, graph normalized) = .error e u := by
    with_unfolding_all exact ⟨_, _, rfl⟩
  obtain ⟨f, hfails, -, hagain⟩ :=
    draftFor_after_error none (t := (Sample.world, (graph normalized, {}))) rfl hplan
  obtain ⟨v, hv⟩ := hagain (u.1, (u.2, f)) rfl none
  exact ⟨e, _, v, hfails, hv⟩

end BeliefLogic
