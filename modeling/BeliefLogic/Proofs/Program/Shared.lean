import BeliefLogic.Proofs.Plan.Outline
import BeliefLogic.Plan.Sharing

/-!
# Shared plans

Plans share the one plan for a mode and depth. A call that is numbered takes it, or a copy if it has
numbers already, so that later numbering changes nothing.
-/

namespace BeliefLogic

open Outcome Run List Dictionary

variable {table table' : PlanTable} {d e : ℤ} {plan : Plan}

/-- A call has its own plan, or that of the table, numbered. -/
def PlanTable.Holds (table : PlanTable) (m : Mode) (d : ℤ) (q : Plan) : Prop :=
  q.info.copied = true ∨ 0 < d ∧ q.isNumbered = true ∧ table.get? (m, d) = some q

theorem PlanTable.Holds.kept {m : Mode} (h : table.Holds m d plan) :
    (if plan.info.copied then plan else (table.get? (m, d)).getD plan) = plan := by
  rcases h with h | ⟨-, -, h⟩
  · rw [if_pos h]
  · rw [h, Option.getD_some, ite_self]

section

variable (table)

mutual

/-- A plan whose calls are up to date is shown as it is. -/
theorem Plan.withBodies_current : ∀ (p : Plan) (n : ℕ), p.CallsAll table.Holds →
    p.withBodies (table.current n) = p
  | .null _ _, _, _ => rfl
  | .log _ p, n, h => congrArg (Plan.log _) (Plan.withBodies_current p n h)
  | .softmax _ p, n, h => congrArg (Plan.softmax _) (Plan.withBodies_current p n h)
  | .sum _ ps, n, h => congrArg (Plan.sum _) (Plan.allWithBodies_current ps n h)
  | .sequence _ _ _ ss _, n, h =>
    congrArg (Plan.sequence _ _ _ · _) (Step.map_rebody_current ss n h)

theorem Plan.allWithBodies_current : ∀ (ps : List Plan) (n : ℕ), Plan.EachCallsAll table.Holds ps →
    Plan.allWithBodies (table.current n) ps = ps
  | [], _, _ => rfl
  | p :: ps, n, h =>
    congrArg₂ cons (Plan.withBodies_current p n h.1) (Plan.allWithBodies_current ps n h.2)

theorem Step.rebody_current : ∀ (s : Step) (n : ℕ), s.CallsAll table.Holds →
    Plan.rebody (table.current n) s = s
  | .act _ _, _, _ => rfl
  | .call _ _ _ _ _, 0, _ => rfl
  | .call _ _ m d p, n + 1, h => by
    rw [Plan.rebody, PlanTable.current, h.1.kept, Plan.withBodies_current p n h.2]

theorem Step.map_rebody_current : ∀ (ss : List Step) (n : ℕ), Step.EachCallsAll table.Holds ss →
    ss.map (Plan.rebody (table.current n)) = ss
  | [], _, _ => rfl
  | s :: ss, n, h => congrArg₂ cons (Step.rebody_current s n h.1) (Step.map_rebody_current ss n h.2)

end

end

/-- A plan at a depth has only calls below that depth. -/
def Plan.Above (d : ℤ) (p : Plan) : Prop := p.CallsAll fun _ e _ => d < e

/-- The plan of a mode is above its own calls. -/
def Descends (_ : Mode) (d : ℤ) (q : Plan) : Prop := q.Above d

/-- The plans of calls stay that have numbers. -/
def PlanTable.Keeps (table table' : PlanTable) : Prop :=
  ∀ m d q, 0 < d → q.isNumbered = true → table.get? (m, d) = some q → table'.get? (m, d) = some q

theorem PlanTable.Keeps.trans {table'' : PlanTable} (h : table.Keeps table')
    (h' : table'.Keeps table'') : table.Keeps table'' :=
  fun m d q hd hq hget => h' m d q hd hq (h m d q hd hq hget)

theorem PlanTable.Keeps.holds (h : table.Keeps table') (m : Mode) (d : ℤ) (q : Plan)
    (hq : table.Holds m d q) : table'.Holds m d q :=
  hq.imp_right fun hq => ⟨hq.1, hq.2.1, h m d q hq.1 hq.2.1 hq.2.2⟩

theorem PlanTable.keeps_put_query (table : PlanTable) (mode : Mode) (plan : Plan) :
    table.Keeps (table.put (mode, 0) plan) := by
  intro m d q hd _ hget
  rw [get?_put, if_neg (not_planKey_beq mode m hd.ne), hget]

/-- A later table: numbered plans and all up to a depth stay, and none is lost. -/
structure PlanTable.Extends (d : ℤ) (table table' : PlanTable) : Prop where
  keeps : table.Keeps table'
  below : ∀ m e, e ≤ d → table'.get? (m, e) = table.get? (m, e)
  has : ∀ m e, (table.get? (m, e)).isSome = true → (table'.get? (m, e)).isSome = true

namespace PlanTable.Extends

theorem refl (table : PlanTable) : Extends d table table :=
  ⟨fun _ _ _ _ _ h => h, fun _ _ _ => rfl, fun _ _ h => h⟩

theorem trans {table'' : PlanTable} (h : Extends d table table') (h' : Extends d table' table'') :
    Extends d table table'' :=
  ⟨h.keeps.trans h'.keeps, fun m e he => (h'.below m e he).trans (h.below m e he),
    fun m e he => h'.has m e (h.has m e he)⟩

theorem mono (h : Extends e table table') (hd : d ≤ e) : Extends d table table' :=
  ⟨h.keeps, fun m e' he => h.below m e' (he.trans hd), h.has⟩

/-- A plan takes the place of one without numbers. -/
theorem put {m : Mode} (hd : d < e) (q : Plan)
    (hnew : (table.get? (m, e)).elim false Plan.isNumbered = false) :
    Extends d table (table.put (m, e) q) := by
  refine ⟨fun m' e' q' _ hq' hget => ?_, fun m' e' he' => ?_, fun m' e' he' => ?_⟩
  · rw [get?_put]
    split
    · next hkey =>
      rw [get?_congr _ hkey, hget] at hnew
      exact absurd hq' (by simpa using hnew)
    · exact hget
  · rw [get?_put, if_neg (not_planKey_beq m m' (by omega))]
  · rw [get?_put]
    split
    · rfl
    · exact he'

end PlanTable.Extends

theorem Plan.isNumbered_number (p : Plan) (copying : Bool) (n : ℕ) :
    ((Plan.number copying p n).run table).1.1.isNumbered = true := by
  cases p <;> cases copying <;> rfl

theorem Plan.copied_number (p : Plan) (n : ℕ) :
    ((Plan.number true p n).run table).1.1.info.copied = true := by
  cases p <;> rfl

mutual

/-- Numbering leaves numbered plans as they are, and calls up to date. -/
theorem Plan.number_shared (copying : Bool) : ∀ (p : Plan) (n : ℕ) (table : PlanTable) (d : ℤ),
    p.Above d → p.CallsAll (CallOf Descends) →
    PlanTable.Extends d table ((Plan.number copying p n).run table).2 ∧
      ((Plan.number copying p n).run table).1.1.CallsAll
        (PlanTable.Holds ((Plan.number copying p n).run table).2)
  | .null _ _, _, table, _, _, _ => ⟨.refl table, trivial⟩
  | .log _ p, n, table, d, h, h' => Plan.number_shared copying p (n + 1) table d h h'
  | .softmax _ p, n, table, d, h, h' => Plan.number_shared copying p (n + 1) table d h h'
  | .sum _ ps, n, table, d, h, h' => Plan.numberAll_shared copying ps (n + 1) table d h h'
  | .sequence _ _ _ ss _, n, table, d, h, h' =>
    Step.numberAll_shared copying ss (n + 1) table d h h'

theorem Plan.numberAll_shared (copying : Bool) : ∀ (ps : List Plan) (n : ℕ) (table : PlanTable)
    (d : ℤ), Plan.EachCallsAll (fun _ e _ => d < e) ps → Plan.EachCallsAll (CallOf Descends) ps →
    PlanTable.Extends d table ((Plan.numberAll copying ps n).run table).2 ∧
      Plan.EachCallsAll (PlanTable.Holds ((Plan.numberAll copying ps n).run table).2)
        ((Plan.numberAll copying ps n).run table).1.1
  | [], _, table, _, _, _ => ⟨.refl table, trivial⟩
  | p :: ps, n, table, d, h, h' => by
    obtain ⟨hext, hp⟩ := Plan.number_shared copying p n table d h.1 h'.1
    obtain ⟨hext', hps⟩ := Plan.numberAll_shared copying ps
      ((Plan.number copying p n).run table).1.2 ((Plan.number copying p n).run table).2 d h.2 h'.2
    exact ⟨hext.trans hext', Plan.CallsAll.mono hext'.keeps.holds _ hp, hps⟩

theorem Step.number_shared (copying : Bool) : ∀ (s : Step) (n : ℕ) (table : PlanTable) (d : ℤ),
    s.CallsAll (fun _ e _ => d < e) → s.CallsAll (CallOf Descends) →
    PlanTable.Extends d table ((Step.number copying s n).run table).2 ∧
      ((Step.number copying s n).run table).1.1.CallsAll
        (PlanTable.Holds ((Step.number copying s n).run table).2)
  | .act _ _, _, table, _, _, _ => by
    cases copying <;> exact ⟨.refl table, trivial⟩
  | .call i x m e p, n, table, d, h, h' => by
    obtain ⟨again, j, _, -, -, rfl, hrun, htable⟩ := Step.number_call copying i x m e p n table
    obtain ⟨hde, -⟩ := h
    obtain ⟨⟨hpos, habove⟩, hcalls⟩ := h'
    obtain ⟨hext, hp⟩ := Plan.number_shared again p (n + 1) table e habove hcalls
    rw [hrun]
    rcases htable with ⟨rfl, htable⟩ | ⟨rfl, hnew, htable⟩
    · rw [htable]
      exact ⟨hext.mono hde.le, .inl (Plan.copied_number p _), hp⟩
    · rw [← hext.below m e le_rfl] at hnew
      have hput := PlanTable.Extends.put hde ((Plan.number false p (n + 1)).run table).1.1 hnew
      rw [htable]
      refine ⟨(hext.mono hde.le).trans hput,
        .inr ⟨hpos, Plan.isNumbered_number p _ _, by rw [get?_put, if_pos BEq.rfl]⟩, ?_⟩
      exact Plan.CallsAll.mono hput.keeps.holds _ hp

theorem Step.numberAll_shared (copying : Bool) : ∀ (ss : List Step) (n : ℕ) (table : PlanTable)
    (d : ℤ), Step.EachCallsAll (fun _ e _ => d < e) ss → Step.EachCallsAll (CallOf Descends) ss →
    PlanTable.Extends d table ((Step.numberAll copying ss n).run table).2 ∧
      Step.EachCallsAll (PlanTable.Holds ((Step.numberAll copying ss n).run table).2)
        ((Step.numberAll copying ss n).run table).1.1
  | [], _, table, _, _, _ => ⟨.refl table, trivial⟩
  | s :: ss, n, table, d, h, h' => by
    obtain ⟨hext, hs⟩ := Step.number_shared copying s n table d h.1 h'.1
    obtain ⟨hext', hss⟩ := Step.numberAll_shared copying ss
      ((Step.number copying s n).run table).1.2 ((Step.number copying s n).run table).2 d h.2 h'.2
    exact ⟨hext.trans hext', Step.CallsAll.mono hext'.keeps.holds _ hs, hss⟩

end

mutual

/-- The calls in a plan with plans of the table, in order. -/
def Plan.sharedCalls : Plan → List (Mode × ℤ)
  | .null _ _ => []
  | .log _ p => Plan.sharedCalls p
  | .softmax _ p => Plan.sharedCalls p
  | .sum _ ps => Plan.allSharedCalls ps
  | .sequence _ _ _ ss _ => Step.allSharedCalls ss

def Plan.allSharedCalls : List Plan → List (Mode × ℤ)
  | [] => []
  | p :: ps => Plan.sharedCalls p ++ Plan.allSharedCalls ps

def Step.sharedCalls : Step → List (Mode × ℤ)
  | .act _ _ => []
  | .call _ _ m d p => if p.info.copied then Plan.sharedCalls p else (m, d) :: Plan.sharedCalls p

def Step.allSharedCalls : List Step → List (Mode × ℤ)
  | [] => []
  | s :: ss => Step.sharedCalls s ++ Step.allSharedCalls ss

end

/-- The number of a plan that a table keeps. -/
def PlanTable.idAt (table : PlanTable) (key : Mode × ℤ) : Option ℕ :=
  (table.get? key).bind (·.info.id)

theorem Plan.ids_eq_cons (p : Plan) : p.ids = p.info.id :: p.ids.tail := by
  cases p <;> rfl

section

variable (table)

mutual

/-- The numbers of shared plans are among those of nodes, below the root. -/
theorem Plan.sharedCalls_sublist : ∀ p : Plan, p.CallsAll table.Holds →
    p.sharedCalls.map table.idAt <+ p.ids.tail
  | .null _ _, _ => nil_sublist _
  | .log _ p, h => (Plan.sharedCalls_sublist p h).trans (tail_sublist _)
  | .softmax _ p, h => (Plan.sharedCalls_sublist p h).trans (tail_sublist _)
  | .sum _ ps, h => Plan.allSharedCalls_sublist ps h
  | .sequence _ _ _ ss _, h => Step.allSharedCalls_sublist ss h

theorem Plan.allSharedCalls_sublist : ∀ ps : List Plan, Plan.EachCallsAll table.Holds ps →
    (Plan.allSharedCalls ps).map table.idAt <+ Plan.allIds ps
  | [], _ => nil_sublist _
  | p :: ps, h => by
    rw [Plan.allSharedCalls, map_append]
    exact ((Plan.sharedCalls_sublist p h.1).trans (tail_sublist _)).append
      (Plan.allSharedCalls_sublist ps h.2)

theorem Step.sharedCalls_sublist : ∀ s : Step, s.CallsAll table.Holds →
    s.sharedCalls.map table.idAt <+ s.ids
  | .act _ _, _ => nil_sublist _
  | .call _ _ m d p, h => by
    have hbelow := Plan.sharedCalls_sublist p h.2
    refine Sublist.cons _ ?_
    rw [Step.sharedCalls]
    rcases h.1 with hcopied | ⟨-, -, hget⟩
    · rw [if_pos hcopied]
      exact hbelow.trans (tail_sublist _)
    · split
      · exact hbelow.trans (tail_sublist _)
      · rw [map_cons, Plan.ids_eq_cons, PlanTable.idAt, hget]
        exact hbelow.cons_cons _

theorem Step.allSharedCalls_sublist : ∀ ss : List Step, Step.EachCallsAll table.Holds ss →
    (Step.allSharedCalls ss).map table.idAt <+ Step.allIds ss
  | [], _ => nil_sublist _
  | s :: ss, h => by
    rw [Step.allSharedCalls, map_append]
    exact (Step.sharedCalls_sublist s h.1).append (Step.allSharedCalls_sublist ss h.2)

end

end

theorem Plan.pairwise_sharedCalls (hcalls : plan.CallsAll table.Holds) (hids : plan.ids.Nodup) :
    plan.sharedCalls.Pairwise fun k l => (k == l) = false := by
  have hnodup := hids.sublist ((Plan.sharedCalls_sublist table plan hcalls).trans (tail_sublist _))
  refine (pairwise_map.1 hnodup).imp fun hne => Bool.eq_false_iff.2 fun hkey => hne ?_
  rw [PlanTable.idAt, PlanTable.idAt, get?_congr _ hkey]

theorem numberStable_below (hd : 0 ≤ d) : NumberStable fun _ e _ => d < e where
  pos _ _ _ h := hd.trans_lt h
  number _ _ _ _ _ _ h := h
  key _ _ _ _ _ h := h

/-- Calls are planned one level deeper than what calls them. -/
theorem Program.upholds_descends (p : Program) : p.Upholds Descends where
  null _ _ _ := trivial
  made _ d plan _ hplan := by
    refine hplan.holds (P := Plan.Above d) (fun r _ q hr => ?_) fun _ => Plan.callsAll_sumOf
    obtain ⟨-, -, hcalls, -⟩ := hr
    refine Step.eachCallsAll_iff.2 fun i x m e q hq => ?_
    obtain ⟨rfl, habove⟩ := hcalls i x m e q hq
    exact ⟨by omega, Plan.CallsAll.mono (fun _ _ _ h => by omega) q habove⟩
  key _ _ _ _ _ h := h
  number _ _ q copying n table hd h :=
    (Plan.number_kept (numberStable_below hd) copying q n table h).1

/-- What is located does not depend on numbers. -/
theorem numberStable_located (table : PlanTable) : NumberStable table.Located where
  pos _ _ _ h := h.1
  number _ _ q copying n table' h := by
    obtain ⟨hd, k, hk, hbare⟩ := h
    exact ⟨hd, k, hk, hbare.trans (Plan.bare_number copying q n table').symm⟩
  key m m' d q hkey h := by
    obtain ⟨hd, k, hk, hbare⟩ := h
    refine ⟨hd, k, ?_, hbare⟩
    rw [← get?_congr table ((planKey_beq_iff m m' d d).2 ⟨hkey, rfl⟩), hk]

/-- Numbering a plan leaves the plans of calls where they were. -/
theorem PlanTable.Closed.number (h : table.Closed) (hplan : plan.CallsAll table.Located)
    (copying : Bool) (n : ℕ) (hext : Extends 0 table ((Plan.number copying plan n).run table).2) :
    PlanTable.Closed ((Plan.number copying plan n).run table).2 ∧
      ((Plan.number copying plan n).run table).1.1.CallsAll
        (PlanTable.Located ((Plan.number copying plan n).run table).2) := by
  obtain ⟨hcalls, htable⟩ := Plan.number_kept (numberStable_located table) copying plan n table hplan
  have hentries := htable.entries fun m d q hd hq => ⟨⟨hd, q, hq, rfl⟩, h m d q hq⟩
  have hlocated (m : Mode) (e : ℤ) (q : Plan) (hq : table.Located m e q) :
      PlanTable.Located ((Plan.number copying plan n).run table).2 m e q := by
    obtain ⟨he, k, hk, hbare⟩ := hq
    obtain ⟨k', hk'⟩ := Option.isSome_iff_exists.1 (hext.has m e (by rw [hk]; rfl))
    obtain ⟨⟨-, k'', hk'', hbare'⟩, -⟩ := hentries m e k' he hk'
    obtain rfl := Option.mem_unique hk hk''
    exact ⟨he, k', hk', hbare'.symm.trans hbare⟩
  refine ⟨fun m d q hq => Plan.CallsAll.mono hlocated q ?_, Plan.CallsAll.mono hlocated _ hcalls⟩
  rcases lt_or_ge 0 d with hd | hd
  · exact (hentries m d q hd hq).2
  · exact h m d q (hext.below m d hd ▸ hq)

theorem PlanTable.callsAll_located_put {q : Plan} (h : q.CallsAll table.Located) (mode : Mode)
    (plan : Plan) : q.CallsAll (PlanTable.Located (table.put (mode, 0) plan)) := by
  refine Plan.CallsAll.mono (fun m e k hk => ?_) q h
  obtain ⟨he, k', hk', hbare⟩ := hk
  exact ⟨he, k', by rw [get?_put, if_neg (not_planKey_beq mode m he.ne), hk'], hbare⟩

theorem PlanTable.Closed.put_query (h : table.Closed) (hplan : plan.CallsAll table.Located)
    (mode : Mode) : PlanTable.Closed (table.put (mode, 0) plan) := by
  intro m d q hq
  rw [get?_put] at hq
  split at hq
  · obtain rfl := Option.some.inj hq
    exact callsAll_located_put hplan mode _
  · exact callsAll_located_put (h m d q hq) mode plan

/-- A program that is ready, with plans of queries that are up to date and calls that are located. -/
structure Program.Shares (p0 p : Program) : Prop extends p0.Ready Descends p where
  current : ∀ m q, p.plan? m 0 = some q → q.CallsAll p.plans.Holds
  closed : p.plans.Closed

theorem Program.shares_of_fresh {p : Program} (h : p.plans = {}) : p.Shares p := by
  have hnone := p.plan?_of_fresh h
  refine ⟨Program.ready_of_fresh h, fun m q hq => ?_, fun m d q hq => ?_⟩
  · exact absurd ((hnone m 0).symm.trans hq) (by simp)
  · exact absurd ((hnone m d).symm.trans hq) (by simp)

theorem Program.Shares.exists_copy {p0 p : Program} (h : p0.Shares p) {mode : Mode}
    (hplan : p.plan? mode 0 = some plan) :
    ∃ c, plan.copy p.plan? = .ok c ∧ c.bare = plan.bare :=
  Plan.copy_bare plan (Plan.CallsAll.mono (fun _ _ _ hq => hq.2) plan (h.closed mode 0 plan hplan))

/-- The plans of queries stay up to date when a query is planned. -/
theorem Run.compile_shares {α : Type} {p0 : Program} {schema : Option Schema} {mode : Mode}
    {t t' : World α × Program} (hp : p0.Shares t.2) (h : compile schema mode t = .ok plan t') :
    p0.Shares t'.2 := by
  obtain ⟨-, hready, -⟩ := compile_ready p0.upholds_descends hp.toReady h
  cases hkept : t.2.plan? mode 0 with
  | some kept =>
    obtain ⟨-, rfl⟩ := compile_kept hkept h
    exact hp
  | none =>
    rcases compile_new hkept h with ⟨-, rfl, rfl⟩ |
      ⟨hex, fuel, made, u, normal, -, hmade, hnormal, rfl, rfl⟩
    · refine ⟨hready, fun m q hq => ?_,
        PlanTable.Closed.put_query hp.closed (show Plan.CallsAll _ (.null {} mode) from trivial) mode⟩
      rw [Program.plan?, get?_put] at hq
      split at hq
      · obtain rfl := Option.some.inj hq
        trivial
      · exact Plan.CallsAll.mono (PlanTable.keeps_put_query _ _ _).holds q (hp.current m q hq)
    · obtain ⟨-, -, -, -, habove, hcalls⟩ := planRules_ready p0.upholds_descends.toGrants
        hp.toReady (hp.alike.maxDepth ▸ hex) hmade
      obtain ⟨hgrows, hlocated⟩ := planRules_grows le_rfl (fun fuel' _ m p =>
        planAt_grows fuel' m 1 one_pos p 0 one_pos) hmade
      -- The plan takes new plans for its calls, or copies of those with numbers.
      have hmid := PlanTable.keeps_put_query u.2.plans mode made
      have hnormal' := Program.callsAll_normalize
        (PlanTable.callsAll_located_put (hlocated hp.closed) mode made) hnormal
      have hclosed := (hgrows.closed hp.closed).put_query (hlocated hp.closed) mode
      set table := u.2.plans.put (mode, 0) made
      obtain ⟨hext, hplan⟩ := Plan.number_shared false normal 1 table 0
        (Program.callsAll_normalize habove hnormal) (Program.callsAll_normalize hcalls hnormal)
      obtain ⟨hclosed, hlocated⟩ := hclosed.number hnormal' false 1 hext
      have hlast := PlanTable.keeps_put_query ((Plan.number false normal 1).run table).2 mode
        ((Plan.number false normal 1).run table).1.1
      refine ⟨hready, fun m q hq => ?_, hclosed.put_query hlocated mode⟩
      rw [Program.plan?, get?_put] at hq
      split at hq
      · obtain rfl := Option.some.inj hq
        exact Plan.CallsAll.mono hlast.holds _ hplan
      · next hkey =>
        rw [hext.below m 0 le_rfl, get?_put, if_neg hkey] at hq
        have hold : t.2.plan? m 0 = some q := (hgrows.below m 0 le_rfl).symm.trans hq
        have hu : t.2.plans.Keeps u.2.plans := fun m d q _ _ => hgrows.keeps m d q
        have hall := (hu.trans hmid).trans (hext.keeps.trans hlast)
        exact Plan.CallsAll.mono hall.holds q (hp.current m q hold)

namespace Run

variable {α : Type} {p0 : Program} {schema : Option Schema} {t t' : World α × Program}

/-- A program that is ready stays so, with the query plans it keeps. -/
def KeepsQueries (p0 : Program) (t u : World α × Program) : Prop :=
  p0.Shares t.2 → p0.Shares u.2 ∧ ∀ m q, t.2.plan? m 0 = some q → u.2.plan? m 0 = some q

instance : Settled (KeepsQueries p0 : World α × Program → World α × Program → Prop) where
  refl _ h := ⟨h, fun _ _ hq => hq⟩
  trans h h' ht := by
    obtain ⟨hu, hkept⟩ := h ht
    obtain ⟨hv, hkept'⟩ := h' hu
    exact ⟨hv, fun m q hq => hkept' m q (hkept m q hq)⟩

/-- The plans of queries on a new program are all kept to the end. -/
theorem mapM_compile_ok {modes : List Mode} {plans : List Plan} (hfresh : t.2.plans = {})
    (h : modes.mapM (compile schema) t = .ok plans t') :
    t.2.Shares t'.2 ∧ Forall₂ (fun mode plan => t'.2.plan? mode 0 = some plan) modes plans := by
  have hcompile (mode : Mode) : Moves (KeepsQueries t.2) (compile schema mode : Run α Program Plan) :=
    fun u plan u' hplan hu => by
      obtain ⟨-, -, -, hkept, -⟩ := compile_ready t.2.upholds_descends hu.toReady hplan
      exact ⟨compile_shares hu hplan, hkept⟩
  have hstart := Program.shares_of_fresh hfresh
  obtain ⟨hend, hall⟩ := mapM_ok (fun mode _ => hcompile mode) h
  refine ⟨(hend hstart).1, hall.imp ?_⟩
  rintro mode plan ⟨u, u', hbefore, hplan, hafter⟩
  have hu := (hbefore hstart).1
  obtain ⟨-, -, hget, -⟩ := compile_ready t.2.upholds_descends hu.toReady hplan
  exact (hafter (hcompile mode u plan u' hplan hu).1).2 mode plan hget

end Run

/-- A plan that is numbered has the answers of itself numbered for another call. If the plans of its
calls are found, it can be copied and has the answers of the copy. They are found for the queries
that were planned on a new program. -/
theorem Plan.copy_answersAlike {α : Type} [Scalar α] {s : Settings α} {db : Database α}
    {symbols : Symbols} (hdb : db.schema = .untyped symbols) {p q : Plan} {copying : Bool} {n : ℕ}
    {table : PlanTable} (hq : ((Plan.number copying p n).run table).1.1 = q) :
    q.AnswersAs s db p ∧ (∀ body, q.CallsAll (Finds body) →
      ∃ c, q.copy body = .ok c ∧ q.AnswersAs s db c) ∧
    ∀ (schema : Option Schema) (modes : List Mode) plans (t t' : World α × Program),
      t.2.plans = {} → modes.mapM (compile schema) t = .ok plans t' → q ∈ plans →
        ∃ c, q.copy t'.2.plan? = .ok c ∧ q.AnswersAs s db c := by
  have hsame {r : Plan} (hr : r.bare = q.bare) : q.AnswersAs s db r := by
    intro again n' table' inputs
    refine Plan.answersAlike_of_outline hdb ?_ inputs
    rw [(Plan.number_spec again r n' table').outline, ← Plan.relabel_bare, hr, ← hq,
      Plan.bare_number, Plan.relabel_bare, (Plan.number_spec copying p n table).outline]
  refine ⟨hsame (hq ▸ (Plan.bare_number copying p n table).symm), fun body h => ?_,
    fun schema modes plans t t' hfresh h hmem => ?_⟩
  · obtain ⟨c, hc, hbare⟩ := Plan.copy_bare q h
    exact ⟨c, hc, hsame hbare⟩
  · obtain ⟨hshares, hall⟩ := mapM_compile_ok hfresh h
    obtain ⟨mode, -, hget⟩ := exists_of_forall₂ hall.flip q hmem
    obtain ⟨c, hc, hbare⟩ := hshares.exists_copy hget
    exact ⟨c, hc, hsame hbare⟩

namespace Sample

/-- Steps along edges, with two queries that call them, one of them twice. -/
def stepping : Program where
  theory := {
    dialect := .clause
    groups := [("step/2", [{ head := some ⟨"step", ["X", "Y"]⟩, body := [⟨"edge", ["X", "Y"]⟩] }]),
      ("two/2", [{ head := some ⟨"two", ["X", "Y"]⟩,
                   body := [⟨"step", ["X", "Z"]⟩, ⟨"step", ["Z", "Y"]⟩] }]),
      ("one/2", [{ head := some ⟨"one", ["X", "Y"]⟩, body := [⟨"step", ["X", "Y"]⟩] }])] }
  maxDepth := .upTo 1
  normalization := .identity

def stepModes : List Mode := [⟨⟨"two", ["i", "o"]⟩⟩, ⟨⟨"one", ["i", "o"]⟩⟩]

/-- How many nodes each plan has, and how many plans it shares. -/
def planCounts : EStateM.Result Error (World ℚ × Program) (List Plan) → List (ℕ × ℕ)
  | .ok plans _ => plans.map fun plan => (plan.ids.length, plan.sharedCalls.length)
  | .error _ _ => []

theorem planCounts_stepping :
    planCounts (stepModes.mapM (compile (some (.untyped symbols))) (world, stepping)) =
      [(7, 1), (4, 0)] := by
  decide +kernel

theorem compile_stepping : ∃ plans t',
    stepModes.mapM (compile (some (.untyped symbols))) (world, stepping) = .ok plans t' ∧
      plans.map (fun plan => (plan.ids.length, plan.sharedCalls.length)) = [(7, 1), (4, 0)] := by
  have hcounts := planCounts_stepping
  cases h : stepModes.mapM (compile (some (.untyped symbols))) (world, stepping) with
  | ok plans t' =>
    rw [h] at hcounts
    exact ⟨plans, t', rfl, hcounts⟩
  | error e t' =>
    rw [h] at hcounts
    cases hcounts

/-- A query that calls steps, one of them by a copy, can be copied itself. -/
theorem copy_answersAlike_stepping : ∃ plans t' q c,
    stepModes.mapM (compile (some (.untyped symbols))) (world, stepping) = .ok plans t' ∧
      q ∈ plans ∧ q.copy t'.2.plan? = .ok c ∧ q.AnswersAs {} database c := by
  obtain ⟨plans, t', h, hcounts⟩ := compile_stepping
  obtain ⟨q, hq⟩ := exists_mem_of_ne_nil plans (by rintro rfl; cases hcounts)
  obtain ⟨hready, hall⟩ := mapM_compile_ok rfl h
  obtain ⟨mode, -, hget⟩ := exists_of_forall₂ hall.flip q hq
  obtain ⟨m, hplanned⟩ := hready.queries mode q hget
  rcases hplanned with ⟨hex, -⟩ | ⟨-, made, normal, table, -, -, hnormal⟩
  · exact absurd hex (by decide)
  · have hdb : database.schema = .untyped symbols := rfl
    obtain ⟨c, hc, hanswers⟩ :=
      (Plan.copy_answersAlike hdb (s := {}) hnormal.symm).2.2 _ _ _ _ _ rfl h hq
    exact ⟨plans, t', q, c, h, hq, hc, hanswers⟩

end Sample

end BeliefLogic
