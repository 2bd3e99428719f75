import BeliefLogic.Proofs.Program.Queries

/-!
# What is kept for later queries

What holds of all plans for calls holds of what planning a query leaves for the next one.
-/

namespace BeliefLogic

open Outcome Run List Dictionary

variable {q kept : Plan} {rules : List Rule}

mutual

/-- Something holds of every call in a plan and in called plans. -/
def Plan.CallsAll (K : Mode → ℤ → Plan → Prop) : Plan → Prop
  | .null _ _ => True
  | .log _ p => Plan.CallsAll K p
  | .softmax _ p => Plan.CallsAll K p
  | .sum _ ps => Plan.EachCallsAll K ps
  | .sequence _ _ _ ss _ => Step.EachCallsAll K ss

def Plan.EachCallsAll (K : Mode → ℤ → Plan → Prop) : List Plan → Prop
  | [] => True
  | p :: ps => Plan.CallsAll K p ∧ Plan.EachCallsAll K ps

def Step.CallsAll (K : Mode → ℤ → Plan → Prop) : Step → Prop
  | .act _ _ => True
  | .call _ _ m d p => K m d p ∧ Plan.CallsAll K p

def Step.EachCallsAll (K : Mode → ℤ → Plan → Prop) : List Step → Prop
  | [] => True
  | t :: ts => Step.CallsAll K t ∧ Step.EachCallsAll K ts

end

variable {K L : Mode → ℤ → Plan → Prop} {schema : Option Schema} {plan : Plan} {d : ℤ} {p : Program}
  {table : PlanTable}

theorem Plan.eachCallsAll_iff {ps : List Plan} :
    Plan.EachCallsAll K ps ↔ ∀ p ∈ ps, p.CallsAll K := by
  induction ps with
  | nil => simp [Plan.EachCallsAll]
  | cons p ps ih => simp [Plan.EachCallsAll, ih]

theorem Step.eachCallsAll_iff {ts : List Step} :
    Step.EachCallsAll K ts ↔ ∀ i x m d q, .call i x m d q ∈ ts → K m d q ∧ q.CallsAll K := by
  induction ts with
  | nil => simp [Step.EachCallsAll]
  | cons t ts ih =>
    rw [Step.EachCallsAll, ih]
    constructor
    · rintro ⟨ht, hts⟩ i x m d q hq
      rcases mem_cons.1 hq with rfl | hq
      · exact ht
      · exact hts i x m d q hq
    · intro h
      refine ⟨?_, fun i x m d q hq => h i x m d q (mem_cons_of_mem _ hq)⟩
      cases t with
      | act i a => trivial
      | call i x m d q => exact h i x m d q mem_cons_self

mutual

/-- What follows from what holds of all calls holds of them too. -/
theorem Plan.CallsAll.mono (hL : ∀ m d q, K m d q → L m d q) :
    ∀ p : Plan, p.CallsAll K → p.CallsAll L
  | .null _ _, _ => trivial
  | .log _ p, h => Plan.CallsAll.mono hL p h
  | .softmax _ p, h => Plan.CallsAll.mono hL p h
  | .sum _ ps, h => Plan.EachCallsAll.mono hL ps h
  | .sequence _ _ _ ss _, h => Step.EachCallsAll.mono hL ss h

theorem Plan.EachCallsAll.mono (hL : ∀ m d q, K m d q → L m d q) :
    ∀ ps : List Plan, Plan.EachCallsAll K ps → Plan.EachCallsAll L ps
  | [], _ => trivial
  | p :: ps, h => ⟨Plan.CallsAll.mono hL p h.1, Plan.EachCallsAll.mono hL ps h.2⟩

theorem Step.CallsAll.mono (hL : ∀ m d q, K m d q → L m d q) :
    ∀ s : Step, s.CallsAll K → s.CallsAll L
  | .act _ _, _ => trivial
  | .call _ _ m d p, h => ⟨hL m d p h.1, Plan.CallsAll.mono hL p h.2⟩

theorem Step.EachCallsAll.mono (hL : ∀ m d q, K m d q → L m d q) :
    ∀ ss : List Step, Step.EachCallsAll K ss → Step.EachCallsAll L ss
  | [], _ => trivial
  | s :: ss, h => ⟨Step.CallsAll.mono hL s h.1, Step.EachCallsAll.mono hL ss h.2⟩

end

theorem Plan.callsAll_setInfo (i : PlanInfo) {p : Plan} (h : p.CallsAll K) :
    (p.setInfo i).CallsAll K := by
  cases p <;> exact h

theorem Plan.callsAll_sumOf {ps : List Plan} (h : ∀ p ∈ ps, p.CallsAll K) :
    (Plan.sumOf ps).CallsAll K := by
  refine Plan.eachCallsAll_iff.2 fun q hq => ?_
  obtain ⟨p, hp, rfl⟩ := mem_map.1 hq
  split
  · exact Plan.callsAll_setInfo _ (h p hp)
  · exact h p hp

/-- What holds of plans for calls, and is not lost by numbering. -/
structure NumberStable (K : Mode → ℤ → Plan → Prop) : Prop where
  pos : ∀ m d q, K m d q → 0 < d
  number : ∀ m d q copying n table, K m d q → K m d ((Plan.number copying q n).run table).1.1
  key : ∀ m m' d q, m.key = m'.key → K m d q → K m' d q

/-- All plans for calls that a table keeps are as they should be. -/
def PlanTable.Entries (K : Mode → ℤ → Plan → Prop) (table : PlanTable) : Prop :=
  ∀ m d q, 0 < d → table.get? (m, d) = some q → K m d q ∧ q.CallsAll K

/-- The plans of queries that a table keeps are those of another one. -/
def PlanTable.SameQueries (table table' : PlanTable) : Prop :=
  ∀ m, table'.get? (m, 0) = table.get? (m, 0)

theorem NumberStable.put (hK : NumberStable K) {m : Mode} (hq : K m d q) (hcalls : q.CallsAll K) :
    (table.Entries K → PlanTable.Entries K (table.put (m, d) q)) ∧
      table.SameQueries (table.put (m, d) q) := by
  constructor
  · intro htable m' d' q' hd' hget
    rw [get?_put] at hget
    split at hget
    · next hkey =>
      obtain ⟨hm, rfl⟩ := (planKey_beq_iff m m' d d').1 hkey
      obtain rfl := Option.some.inj hget
      exact ⟨hK.key m m' d q hm hq, hcalls⟩
    · exact htable m' d' q' hd' hget
  · intro m'
    rw [get?_put, if_neg (not_planKey_beq m m' (hK.pos m d q hq).ne')]

/-- Numbering left a table as it should be. -/
structure PlanTable.Continues (K : Mode → ℤ → Plan → Prop) (table table' : PlanTable) : Prop where
  entries : table.Entries K → table'.Entries K
  queries : table.SameQueries table'

theorem PlanTable.Continues.refl (table : PlanTable) : table.Continues K table :=
  ⟨id, fun _ => rfl⟩

theorem PlanTable.Continues.trans {table' table'' : PlanTable} (h : table.Continues K table')
    (h' : table'.Continues K table'') : table.Continues K table'' :=
  ⟨fun ht => h'.entries (h.entries ht), fun m => (h'.queries m).trans (h.queries m)⟩

mutual

/-- Numbering keeps what holds of calls, and leaves plans of which it holds. -/
theorem Plan.number_kept (hK : NumberStable K) (copying : Bool) : ∀ (p : Plan) (n : ℕ)
    (table : PlanTable), p.CallsAll K →
    ((Plan.number copying p n).run table).1.1.CallsAll K ∧
      table.Continues K ((Plan.number copying p n).run table).2
  | .null _ _, _, table, _ => ⟨trivial, .refl table⟩
  | .log _ p, n, table, h => Plan.number_kept hK copying p (n + 1) table h
  | .softmax _ p, n, table, h => Plan.number_kept hK copying p (n + 1) table h
  | .sum _ ps, n, table, h => Plan.numberAll_kept hK copying ps (n + 1) table h
  | .sequence _ _ _ ss _, n, table, h => Step.numberAll_kept hK copying ss (n + 1) table h

theorem Plan.numberAll_kept (hK : NumberStable K) (copying : Bool) : ∀ (ps : List Plan) (n : ℕ)
    (table : PlanTable), Plan.EachCallsAll K ps →
    Plan.EachCallsAll K ((Plan.numberAll copying ps n).run table).1.1 ∧
      table.Continues K ((Plan.numberAll copying ps n).run table).2
  | [], _, table, _ => ⟨trivial, .refl table⟩
  | p :: ps, n, table, h => by
    obtain ⟨hp, htable⟩ := Plan.number_kept hK copying p n table h.1
    obtain ⟨hps, htable'⟩ := Plan.numberAll_kept hK copying ps
      ((Plan.number copying p n).run table).1.2 ((Plan.number copying p n).run table).2 h.2
    exact ⟨⟨hp, hps⟩, htable.trans htable'⟩

theorem Step.number_kept (hK : NumberStable K) (copying : Bool) : ∀ (s : Step) (n : ℕ)
    (table : PlanTable), s.CallsAll K →
    ((Step.number copying s n).run table).1.1.CallsAll K ∧
      table.Continues K ((Step.number copying s n).run table).2
  | .act _ _, _, table, _ => by
    cases copying <;> exact ⟨trivial, .refl table⟩
  | .call i x m d p, n, table, h => by
    obtain ⟨again, j, _, -, -, rfl, hrun, htable⟩ := Step.number_call copying i x m d p n table
    obtain ⟨hp, hcontinues⟩ := Plan.number_kept hK again p (n + 1) table h.2
    have hq := hK.number m d p again (n + 1) table h.1
    rw [hrun]
    refine ⟨⟨hq, hp⟩, ?_⟩
    rcases htable with ⟨-, htable⟩ | ⟨-, -, htable⟩
    · rw [htable]
      exact hcontinues
    · rw [htable]
      obtain ⟨hentries, hqueries⟩ := hK.put hq hp
      exact hcontinues.trans ⟨hentries, hqueries⟩

theorem Step.numberAll_kept (hK : NumberStable K) (copying : Bool) : ∀ (ss : List Step) (n : ℕ)
    (table : PlanTable), Step.EachCallsAll K ss →
    Step.EachCallsAll K ((Step.numberAll copying ss n).run table).1.1 ∧
      table.Continues K ((Step.numberAll copying ss n).run table).2
  | [], _, table, _ => ⟨trivial, .refl table⟩
  | s :: ss, n, table, h => by
    obtain ⟨hs, htable⟩ := Step.number_kept hK copying s n table h.1
    obtain ⟨hss, htable'⟩ := Step.numberAll_kept hK copying ss
      ((Step.number copying s n).run table).1.2 ((Step.number copying s n).run table).2 h.2
    exact ⟨⟨hs, hss⟩, htable.trans htable'⟩

end

variable {p0 : Program} {Q : Mode → ℤ → Plan → Prop} {mode : Mode}

/-- A call with a plan of which something holds. -/
def CallOf (Q : Mode → ℤ → Plan → Prop) (m : Mode) (d : ℤ) (q : Plan) : Prop := 0 < d ∧ Q m d q

/-- What holds of plans as they are made, and is not lost by numbering. -/
structure Program.Upholds (p : Program) (Q : Mode → ℤ → Plan → Prop) : Prop extends p.Grants Q where
  number : ∀ m d q copying n table, 0 ≤ d → Q m d q →
    Q m d ((Plan.number copying q n).run table).1.1

theorem Program.Upholds.numberStable (h : p0.Upholds Q) : NumberStable (CallOf Q) where
  pos _ _ _ hq := hq.1
  number m d q copying n table hq := ⟨hq.1, h.number m d q copying n table hq.1.le hq.2⟩
  key m m' d q hkey hq := ⟨hq.1, h.key m m' d q hkey hq.2⟩

theorem OfRules.mono {R R' : Rule → Plan → Prop} (h : OfRules R rules plan)
    (hR : ∀ r q, R r q → R' r q) : OfRules R' rules plan := by
  cases h with
  | one h => exact .one (hR _ _ h)
  | many h => exact .many (h.imp hR)

/-- What holds of sums and of the plans of rules holds of the plan of a mode. -/
theorem OfRules.holds {P : Plan → Prop} {R : Rule → Plan → Prop} (h : OfRules R rules plan)
    (hR : ∀ r ∈ rules, ∀ q, R r q → P q) (hsum : ∀ qs : List Plan, (∀ q ∈ qs, P q) → P (.sumOf qs))
    : P plan := by
  cases h with
  | one h => exact hR _ (mem_singleton_self _) _ h
  | many hall =>
    refine hsum _ fun q hq => ?_
    obtain ⟨r, hr, hq⟩ := exists_of_forall₂ hall.flip q hq
    exact hR r hr q hq

/-- Something holds of a plan at a depth, and of all it calls. -/
def Nested (Q : Mode → ℤ → Plan → Prop) (m : Mode) (d : ℤ) (q : Plan) : Prop :=
  0 ≤ d → Q m d q ∧ q.CallsAll (CallOf Q)

/-- What holds of all plans for calls holds of the plans that they call. -/
theorem Program.Grants.nested (h : p0.Grants Q) : p0.Grants (Nested Q) where
  null m d hex _ := ⟨h.null m d hex, trivial⟩
  made m d plan hex hplan hd := by
    have hQ : ∀ m q, Nested Q m (d + 1) q → Q m (d + 1) q ∧ q.CallsAll (CallOf Q) :=
      fun m q hq => hq (by omega)
    constructor
    · exact h.made m d plan hex (hplan.mono fun r q hr => hr.imp (.refl _) fun m q hq => (hQ m q hq).1)
    · refine hplan.holds (fun r _ q hr => ?_) fun qs => Plan.callsAll_sumOf
      obtain ⟨-, -, hcalls, -⟩ := hr
      refine Step.eachCallsAll_iff.2 fun i x m e q hq => ?_
      obtain ⟨rfl, hnested⟩ := hcalls i x m e q hq
      obtain ⟨hq, hcalls⟩ := hQ m q hnested
      exact ⟨⟨by omega, hq⟩, hcalls⟩
  key m m' d q hkey hq hd := ⟨h.key m m' d q hkey (hq hd).1, (hq hd).2⟩

/-- A program like another one, where plans for calls are as they should be, and plans of queries as
they were made. -/
structure Program.Ready (p0 : Program) (Q : Mode → ℤ → Plan → Prop) (p : Program) : Prop where
  alike : p0.Alike p
  calls : PlanTable.Entries (CallOf Q) p.plans
  queries : ∀ m q, p.plan? m 0 = some q → ∃ m', QueryPlanned p0 Q m' q

theorem Program.Ready.sound (h : p0.Ready Q p) : p0.Sound (Nested Q) p :=
  ⟨h.alike, fun m d q hd hq _ => ⟨(h.calls m d q hd hq).1.2, (h.calls m d q hd hq).2⟩⟩

/-- The plan of a query is one of which holds what holds of calls, normalized in one of three ways.
-/
theorem QueryPlanned.normalized (hQ : p0.Upholds Q) (h : QueryPlanned p0 Q mode plan) :
    ∃ q, Q mode 0 q ∧ (plan = q ∨ (∃ i, plan = .softmax i q) ∨
      p0.normalization = .logSoftmax ∧ ∃ i j, plan = .softmax i (.log j q)) := by
  rcases h with ⟨hex, rfl⟩ | ⟨hex, made, normal, table, hmade, hnormal, rfl⟩
  · exact ⟨_, hQ.null mode 0 hex, .inl rfl⟩
  have hnumbered (k : ℕ) : Q mode 0 ((Plan.number false made k).run table).1.1 :=
    hQ.number mode 0 made false k table le_rfl (hQ.made mode 0 made hex hmade)
  cases hn : p0.normalization with
  | identity =>
    obtain rfl : made = normal := by simpa [hn, Program.normalize] using hnormal
    exact ⟨_, hnumbered 1, .inl rfl⟩
  | softmax =>
    obtain rfl : made.softmaxOf = normal := by simpa [hn, Program.normalize] using hnormal
    exact ⟨_, hnumbered 2, .inr (.inl ⟨_, rfl⟩)⟩
  | logSoftmax =>
    obtain rfl : made.logOf.softmaxOf = normal := by simpa [hn, Program.normalize] using hnormal
    exact ⟨_, hnumbered 3, .inr (.inr ⟨rfl, _, _, rfl⟩)⟩
  | unknown shown => cases shown <;> simp [hn, Program.normalize] at hnormal

theorem Program.ready_of_fresh (h : p.plans = {}) : p.Ready Q p := by
  refine ⟨.refl p, fun m d q _ hq => ?_, fun m q hq => ?_⟩
  · simp [h, Dictionary.get?, Dictionary.lookup] at hq
  · simp [Program.plan?, h, Dictionary.get?, Dictionary.lookup] at hq

theorem Program.callsAll_normalize {K : Mode → ℤ → Plan → Prop} {n : Normalization}
    {made normal : Plan} (hmade : made.CallsAll K) (h : Program.normalize n made = .ok normal) :
    normal.CallsAll K := by
  cases n with
  | softmax | logSoftmax | identity =>
    obtain rfl := Except.ok.inj h
    exact hmade
  | unknown shown => cases shown <;> cases h

theorem Dictionary.get?_congr {κ ν : Type} [BEq κ] [EquivBEq κ] (d : Dictionary κ ν) {k k' : κ}
    (h : (k == k') = true) : d.get? k = d.get? k' := by
  obtain ⟨entries⟩ := d
  change lookup k entries = lookup k' entries
  induction entries with
  | nil => rfl
  | cons e entries ih =>
    have hkey : (e.1 == k) = (e.1 == k') := BEq.congr_right h
    simp [lookup, hkey, ih]

/-- A table has the plan of a call, up to numbers and notes. -/
def PlanTable.Located (table : PlanTable) (m : Mode) (d : ℤ) (q : Plan) : Prop :=
  0 < d ∧ ∃ k, table.get? (m, d) = some k ∧ k.bare = q.bare

/-- A table has the plans of all calls in its plans. -/
def PlanTable.Closed (table : PlanTable) : Prop :=
  ∀ m d q, table.get? (m, d) = some q → q.CallsAll table.Located

/-- Plans were added to those of a program, at greater depths. -/
structure Program.Grows (d : ℤ) (p p' : Program) : Prop where
  keeps : ∀ m e q, p.plan? m e = some q → p'.plan? m e = some q
  below : ∀ m e, e ≤ d → p'.plan? m e = p.plan? m e
  closed : p.plans.Closed → p'.plans.Closed

namespace Program.Grows

variable {p' p'' : Program} {e : ℤ}

theorem refl (p : Program) : p.Grows d p := ⟨fun _ _ _ h => h, fun _ _ _ => rfl, id⟩

theorem trans (h : p.Grows d p') (h' : p'.Grows d p'') : p.Grows d p'' :=
  ⟨fun m e q hq => h'.keeps m e q (h.keeps m e q hq),
    fun m e he => (h'.below m e he).trans (h.below m e he), h'.closed ∘ h.closed⟩

theorem located (h : p.Grows d p') (m : Mode) (e : ℤ) (q : Plan) (hq : p.plans.Located m e q) :
    p'.plans.Located m e q := by
  obtain ⟨he, k, hk, hbare⟩ := hq
  exact ⟨he, k, h.keeps m e k hk, hbare⟩

/-- A plan is kept where there was none. -/
theorem put (h : p.Grows e p') (hd : e < d) (hnew : p'.plan? mode d = none)
    (hplan : p.plans.Closed → plan.CallsAll p'.plans.Located) :
    p.Grows e { p' with plans := p'.plans.put (mode, d) plan } := by
  have hkeeps : ∀ m e q, p'.plan? m e = some q →
      Dictionary.get? (p'.plans.put (mode, d) plan) (m, e) = some q := by
    intro m e q hq
    rw [get?_put]
    split
    · next hkey =>
      have hsame : p'.plan? mode d = p'.plan? m e := get?_congr _ hkey
      rw [hq, hnew] at hsame
      cases hsame
    · exact hq
  have hlocated (m : Mode) (e : ℤ) (q : Plan) (hq : p'.plans.Located m e q) :
      PlanTable.Located (p'.plans.put (mode, d) plan) m e q := by
    obtain ⟨he, k, hk, hbare⟩ := hq
    exact ⟨he, k, hkeeps m e k hk, hbare⟩
  refine ⟨fun m e q hq => hkeeps m e q (h.keeps m e q hq), fun m e' he' => ?_, fun hp m e q hq => ?_⟩
  · rw [← h.below m e' he', Program.plan?, get?_put, if_neg (not_planKey_beq mode m (by omega))]
    rfl
  · rw [get?_put] at hq
    split at hq
    · obtain rfl := Option.some.inj hq
      exact Plan.CallsAll.mono hlocated _ (hplan hp)
    · exact Plan.CallsAll.mono hlocated q (h.closed hp m e q hq)

end Program.Grows

namespace Run

variable {α : Type} {S : Program → Prop} {t : World α × Program}
variable {t' : World α × Program}

theorem planRules_continues {fuel : ℕ}
    (hplan : ∀ fuel' < fuel, ∀ m, Moves (Continues S)
      (planAt schema fuel' m (d + 1) : Run α Program Plan)) :
    Moves (Continues S) (planRules (planForRule schema fuel mode d) mode rules :
      Run α Program Plan) := fun _ _ _ h =>
  (planRules_ok
    (fun _ _ _ _ hr => ⟨(planForRule_ok hplan hr).1, fun _ => trivial⟩) h).1

/-- Plans are added at a depth that is greater than another one. -/
def Adds (d : ℤ) (t u : World α × Program) : Prop := t.2.Grows d u.2

instance : Settled (Adds d : World α × Program → World α × Program → Prop) where
  refl t := .refl t.2
  trans h h' := Program.Grows.trans h h'

/-- Planning rules adds the plans of their calls, which are found. -/
theorem planRules_grows {fuel : ℕ} (hd : 0 ≤ d) (hplan : ∀ fuel' < fuel, ∀ m (p : Program),
      Moves (Continues (p.Grows d)) (planAt schema fuel' m (d + 1) : Run α Program Plan))
    (h : planRules (planForRule schema fuel mode d) mode rules t = .ok plan t') :
    t.2.Grows d t'.2 ∧ (t.2.plans.Closed → plan.CallsAll t'.2.plans.Located) := by
  have hrule (r : Rule) (t : World α × Program) (plan : Plan) (t' : World α × Program)
      (hr : planForRule schema fuel mode d r t = .ok plan t') :
      t.2.Grows d t'.2 ∧ (t.2.plans.Closed → plan.CallsAll t'.2.plans.Located) := by
    obtain ⟨hcont, -, -, hcalls, -⟩ := planForRule_ok (fun fuel' hlt m => hplan fuel' hlt m t.2) hr
    have hgrows := hcont.sound (.refl t.2)
    refine ⟨hgrows, fun hclosed => Step.eachCallsAll_iff.2 fun i x m e q hq => ?_⟩
    obtain ⟨rfl, hkept⟩ := hcalls i x m e q hq
    exact ⟨⟨by omega, q, hkept, rfl⟩, hgrows.closed hclosed m (d + 1) q hkept⟩
  rcases rules with _ | ⟨r, _ | ⟨r', rules⟩⟩
  · simp [planRules] at h
  · exact hrule r t plan t' h
  · simp only [planRules, bind_ok] at h
    obtain ⟨plans, _, hplans, rfl, rfl⟩ := h
    obtain ⟨hall, hmem⟩ := mapM_ok (R := Adds d)
      (fun r _ t plan t' h => (hrule r t plan t' h).1) hplans
    refine ⟨hall, fun hclosed => Plan.callsAll_sumOf fun q hq => ?_⟩
    obtain ⟨r, -, t1, t2, hbefore, hr, hafter⟩ := exists_of_forall₂ hmem.flip q hq
    exact Plan.CallsAll.mono hafter.located q ((hrule r t1 q t2 hr).2 (hbefore.closed hclosed))

/-- Planning a call adds plans at its depth and below. -/
theorem planAt_grows (fuel : ℕ) : ∀ mode d, 0 < d → ∀ (p : Program) (e : ℤ), e < d →
    Moves (Continues (p.Grows e)) (planAt schema fuel mode d : Run α Program Plan) := by
  induction fuel using Nat.strong_induction_on with
  | _ fuel ih =>
  intro mode d hd p e he t plan t' h
  obtain ⟨-, rfl⟩ | ⟨hnew, -, h⟩ | ⟨hnew, -, fuel, made, u, v, rfl, hmade, hkept, h⟩ := planAt_cases h
  · exact Settled.refl _
  · obtain ⟨rfl, rfl⟩ := keepPlan_ok.1 h
    exact ⟨rfl, ⟨rfl, rfl, rfl, rfl⟩, fun ht => ht.put he hnew fun _ => trivial⟩
  · rw [if_pos hd.ne'] at h
    obtain ⟨-, rfl⟩ := pure_ok.1 h
    obtain ⟨-, rfl⟩ := keepPlan_ok.1 hkept
    have hrules := planRules_continues (fun fuel' hlt m =>
      ih fuel' (by omega) m (d + 1) (by omega) p e (by omega)) _ _ _ hmade
    obtain ⟨hgrows, hcalls⟩ := planRules_grows hd.le (fun fuel' hlt m p =>
      ih fuel' (by omega) m (d + 1) (by omega) p d (lt_add_one d)) hmade
    have hnew : u.2.plan? mode d = none := (hgrows.below mode d le_rfl).trans hnew
    exact ⟨hrules.settings, hrules.program.trans ⟨rfl, rfl, rfl, rfl⟩, fun ht =>
      (hrules.sound ht).put he hnew fun hclosed => hcalls (ht.closed hclosed)⟩

/-- Some plans are kept, whatever they are. -/
def HasPlans (H : Mode → ℤ → Prop) (p : Program) : Prop :=
  ∀ m d, H m d → (p.plan? m d).isSome = true

theorem HasPlans.grows {H : Mode → ℤ → Prop} {p' : Program} (hp : HasPlans H p)
    (h : p.Grows d p') : HasPlans H p' := by
  intro m e hm
  obtain ⟨q, hq⟩ := Option.isSome_iff_exists.1 (hp m e hm)
  rw [h.keeps m e q hq]
  rfl

theorem exists_planningFuel (p : Program) : ∃ fuel, planningFuel p 0 = fuel + 1 := by
  unfold planningFuel
  cases p.maxDepth with
  | upTo n => simp
  | undefined => simp

theorem planAt_of_kept (fuel : ℕ) {d : ℤ} (hkept : t.2.plan? mode d = some kept) :
    planAt schema (fuel + 1) mode d t = .ok kept t := by
  refine bind_ok.2 ⟨t.2, t, rfl, ?_⟩
  rw [hkept]
  rfl

theorem compile_of_kept (hkept : t.2.plan? mode 0 = some kept) :
    compile schema mode t = .ok kept t := by
  obtain ⟨fuel, hfuel⟩ := exists_planningFuel t.2
  have hstart : compile schema mode t = planAt schema (fuel + 1) mode 0 t := by
    rw [← hfuel]
    rfl
  rw [hstart, planAt_of_kept fuel hkept]

theorem compile_kept (hkept : t.2.plan? mode 0 = some kept)
    (h : compile schema mode t = .ok plan t') : plan = kept ∧ t' = t := by
  rw [compile_of_kept hkept] at h
  cases h
  exact ⟨rfl, rfl⟩

theorem entries_put_query {K : Mode → ℤ → Plan → Prop} (h : table.Entries K) :
    PlanTable.Entries K (table.put (mode, 0) q) := by
  intro m d q' hd hget
  rw [get?_put, if_neg (not_planKey_beq mode m hd.ne)] at hget
  exact h m d q' hd hget

/-- The rules of a new query are planned rightly, whatever was planned before. -/
theorem planRules_ready {fuel : ℕ} {made : Plan} {u : World α × Program} (hgrants : p0.Grants Q)
    (hp : p0.Ready Q t.2) (hex : p0.maxDepth.isExceededBy 0 = .ok false)
    (h : planRules (planForRule schema fuel mode 0) mode ((t.2.rulesFor? mode).getD []) t =
      .ok made u) :
    u.1.settings = t.1.settings ∧ p0.Alike u.2 ∧ u.2.plans.Entries (CallOf Q) ∧
      ModePlanned p0 (Nested Q) mode 0 made ∧ Q mode 0 made ∧ made.CallsAll (CallOf Q) := by
  obtain ⟨hcont, hrules⟩ := planRules_planForRule_ok hgrants.nested le_rfl h
  have hsound := hcont.sound hp.sound
  have hmodes : ModePlanned p0 (Nested Q) mode 0 made := by
    rw [ModePlanned, ← hp.alike.rulesFor?_eq]
    exact hrules hp.sound
  refine ⟨hcont.settings, hsound.alike, fun m d q hd hq => ?_, hmodes,
    hgrants.nested.made mode 0 made hex hmodes le_rfl⟩
  obtain ⟨hq, hcalls⟩ := hsound.plans m d q hd hq hd.le
  exact ⟨⟨hd, hq⟩, hcalls⟩

/-- A query is planned rightly whatever was planned before, and kept. -/
theorem compile_ready (hQ : p0.Upholds Q) (hp : p0.Ready Q t.2)
    (h : compile schema mode t = .ok plan t') :
    t'.1.settings = t.1.settings ∧ p0.Ready Q t'.2 ∧ t'.2.plan? mode 0 = some plan ∧
      (∀ m q, t.2.plan? m 0 = some q → t'.2.plan? m 0 = some q) ∧
      ∃ m', QueryPlanned p0 Q m' plan := by
  cases hkept : t.2.plan? mode 0 with
  | some kept =>
    obtain ⟨rfl, rfl⟩ := compile_kept hkept h
    exact ⟨rfl, hp, hkept, fun _ _ h => h, hp.queries _ _ hkept⟩
  | none =>
    -- The plan is new under its mode, and plans of other queries are as they were.
    suffices hnew : t'.1.settings = t.1.settings ∧ p0.Alike t'.2 ∧
        PlanTable.Entries (CallOf Q) t'.2.plans ∧
        (∀ m, t'.2.plan? m 0 =
          if (mode, (0 : ℤ)) == (m, 0) then some plan else t.2.plan? m 0) ∧
        QueryPlanned p0 Q mode plan by
      obtain ⟨hsettings, halike, hcalls, hget, hplanned⟩ := hnew
      refine ⟨hsettings, ⟨halike, hcalls, fun m q hq => ?_⟩, by rw [hget, if_pos BEq.rfl],
        fun m q hq => ?_, mode, hplanned⟩
      · rw [hget] at hq
        split at hq
        · exact ⟨mode, Option.some.inj hq ▸ hplanned⟩
        · exact hp.queries m q hq
      · rw [hget, if_neg, hq]
        intro hkey
        have hsame : t.2.plan? m 0 = t.2.plan? mode 0 := get?_congr _ (BEq.symm hkey)
        rw [hsame, hkept] at hq
        cases hq
    rcases compile_new hkept h with ⟨hex, rfl, rfl⟩ |
      ⟨hex, fuel, made, u, normal, -, hmade, hnormal, hplan, rfl⟩
    · exact ⟨rfl, hp.alike.trans ⟨rfl, rfl, rfl, rfl⟩, entries_put_query hp.calls,
        fun m => get?_put _ _ _ _, .inl ⟨hp.alike.maxDepth ▸ hex, rfl⟩⟩
    · have hex : p0.maxDepth.isExceededBy 0 = .ok false := hp.alike.maxDepth ▸ hex
      obtain ⟨hsettings, halike, hentries, hmodes, -, hcalls⟩ :=
        planRules_ready hQ.toGrants hp hex hmade
      obtain ⟨hgrows, -⟩ := planRules_grows le_rfl (fun fuel' _ m p =>
        planAt_grows fuel' m 1 one_pos p 0 one_pos) hmade
      have hplanned : QueryPlanned p0 Q mode plan := by
        refine .inr ⟨hex, made, normal, _, ?_, by rw [← hnormal, hp.alike.normalization], hplan⟩
        exact hmodes.mono fun r q hr => hr.imp (.refl _) fun m q hq => (hq (by omega)).1
      obtain ⟨-, htable⟩ := Plan.number_kept hQ.numberStable false normal 1
        (u.2.plans.put (mode, 0) made) (Program.callsAll_normalize hcalls hnormal)
      refine ⟨hsettings, halike.trans ⟨rfl, rfl, rfl, rfl⟩,
        entries_put_query (htable.entries (entries_put_query hentries)), fun m => ?_, hplanned⟩
      rw [Program.plan?, get?_put, htable.queries, get?_put]
      split
      · rfl
      · exact hgrows.below m 0 le_rfl

end Run

end BeliefLogic
