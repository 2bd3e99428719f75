import BeliefLogic.Proofs.Program.Depth
import BeliefLogic.Inspection.Tree
import BeliefLogic.Proofs.Program.Shared

/-!
# Inspected plans

An inspection lays the nodes of a plan out in the order of their numbers.
-/

namespace BeliefLogic

open Outcome List

namespace Inspection

variable {α β γ : Type} {scratch : Scratch α} {ids ids' : List (Option ℕ)}

/-- Every row is kept by position and shows the result under the next number. -/
def Records (scratch : Scratch α) (rows : List (TreeRow α)) : Prop :=
  ∀ k row, rows[k]? = some row →
    row.key = "iid" ++ Text.natural k ∧ (scratch.cell (k + 1)).output = some row.output

/-- The nodes laid out have the next numbers. -/
def Lays (scratch : Scratch α) (ids : List (Option ℕ)) (act : Laying α β) : Prop :=
  ∀ rows b rows' next, Records scratch rows → Counts (rows.length + 1) ids next →
    act.run rows = .ok (b, rows') → Records scratch rows' ∧ next = rows'.length + 1

theorem lays_pure (b : β) : Lays scratch [] (pure b) := by
  intro rows b' rows' next hrows hids h
  obtain ⟨-, rfl⟩ := Prod.mk.inj (except_pure_ok.1 h)
  exact ⟨hrows, hids⟩

theorem Lays.bind {act : Laying α β} {f : β → Laying α γ} (h : Lays scratch ids act)
    (hf : ∀ b, Lays scratch ids' (f b)) : Lays scratch (ids ++ ids') (act >>= f) := by
  intro rows c rows' next hrows hids hrun
  rw [StateT.run_bind, then_ok] at hrun
  obtain ⟨b, hb, hrun⟩ := hrun
  obtain ⟨m, hids, hids'⟩ := counts_append.1 hids
  obtain ⟨hrows, rfl⟩ := h rows b.1 b.2 m hrows hids hb
  exact hf b.1 b.2 c rows' next hrows hids' hrun

theorem lays_lay {graded : Bool} {id : Option ℕ} {text comment parent : String} {offset : ℕ} :
    Lays scratch [id] (lay scratch graded id text comment parent offset) := by
  rintro rows key rows' next hrows ⟨rfl, rfl⟩ h
  rw [lay, StateT.run_bind, then_ok] at h
  obtain ⟨_, hget, h⟩ := h
  obtain rfl := except_pure_ok.1 hget
  cases hout : (scratch.cell (rows.length + 1)).output with
  | none =>
    simp only [Option.map_some, Option.getD_some, hout] at h
    cases h
  | some output =>
    simp only [Option.map_some, Option.getD_some, hout] at h
    obtain ⟨-, rfl⟩ := Prod.mk.inj (Except.ok.inj h)
    refine ⟨fun k row hk => ?_, by simp⟩
    rw [getElem?_concat] at hk
    split at hk
    · next hlast =>
      subst hlast
      obtain rfl := Option.some.inj hk
      exact ⟨rfl, hout⟩
    · exact hrows k row hk

variable (graded : Bool) (d : Dialect)

mutual

/-- The nodes of a plan are laid out in the order of their numbers. -/
theorem lays_layPlan : ∀ (p : Plan) (parent : String) (offset : ℕ),
    Lays scratch p.ids (layPlan scratch graded d p parent offset)
  | .null _ _, _, _ => lays_lay.bind fun _ => lays_pure ()
  | .log _ p, _, _ => lays_lay.bind fun key => lays_layPlan p key 0
  | .softmax _ p, _, _ => lays_lay.bind fun key => lays_layPlan p key 0
  | .sum _ ps, _, _ => lays_lay.bind fun key => lays_layPlans ps key 0
  | .sequence _ _ _ ss _, _, _ =>
    lays_lay.bind fun key => lays_laySteps ss key 0

theorem lays_layPlans : ∀ (ps : List Plan) (parent : String) (offset : ℕ),
    Lays scratch (Plan.allIds ps) (layPlans scratch graded d ps parent offset)
  | [], _, _ => lays_pure ()
  | p :: ps, parent, offset =>
    (lays_layPlan p parent offset).bind fun _ => lays_layPlans ps parent (offset + 1)

theorem lays_layStep : ∀ (s : Step) (parent : String) (offset : ℕ),
    Lays scratch s.ids (layStep scratch graded d s parent offset)
  | .act _ _, _, _ => lays_lay.bind fun _ => lays_pure ()
  | .call _ _ _ _ p, _, _ => lays_lay.bind fun key => lays_layPlan p key 0

theorem lays_laySteps : ∀ (ss : List Step) (parent : String) (offset : ℕ),
    Lays scratch (Step.allIds ss) (laySteps scratch graded d ss parent offset)
  | [], _, _ => lays_pure ()
  | s :: ss, parent, offset =>
    (lays_layStep s parent offset).bind fun _ => lays_laySteps ss parent (offset + 1)

end

end Inspection

namespace Run

variable {α : Type}

/-- Whatever queries are planned on a new program, each plan is kept to the end, and the table then
shows it as it was made, with the plans that are shared. No plan is shared twice in it, its nodes
are numbered from one on, and an inspection shows in each row the result of the node with the next
number. -/
theorem compile_numbers {schema : Option Schema} {modes : List Mode} {plans : List Plan}
    {t t' : World α × Program} (hfresh : t.2.plans = {})
    (hdepth : t.2.maxDepth.isExceededBy 0 = .ok false)
    (h : modes.mapM (compile schema) t = .ok plans t') :
    Forall₂ (fun mode plan => t'.2.plan? mode 0 = some plan ∧ t'.2.plans.refresh plan = plan ∧
      plan.sharedCalls.Pairwise (fun k l => (k == l) = false) ∧
      plan.ids = (List.range' 1 plan.ids.length).map some ∧
      ∀ (scratch : Scratch α) graded d rows,
        (Inspection.layPlan scratch graded d plan "" 0).run [] = .ok ((), rows) →
          rows.length = plan.ids.length ∧ Inspection.Records scratch rows) modes plans := by
  obtain ⟨hshares, hall⟩ := mapM_compile_ok hfresh h
  refine hall.imp fun mode plan hget => ?_
  have hcalls := hshares.current mode plan hget
  obtain ⟨_, ⟨hex, -⟩ | ⟨-, made, normal, table, -, -, rfl⟩⟩ := hshares.queries mode plan hget
  · rw [hdepth] at hex
    cases hex
  · have hcounts := (Plan.number_spec false normal 1 table).counts
    obtain ⟨hlast, hids⟩ := hcounts.eq_range
    refine ⟨hget, Plan.withBodies_current _ _ _ hcalls,
      Plan.pairwise_sharedCalls hcalls hcounts.nodup, hids, fun scratch graded d rows hrows => ?_⟩
    obtain ⟨hrecords, hnext⟩ := Inspection.lays_layPlan graded d _ "" 0 [] () rows _
      (fun _ _ h => by cases h) hcounts hrows
    exact ⟨by omega, hrecords⟩

end Run

namespace Sample

open Run

/-- Of three calls of one plan, the first has the table's and the others copies. -/
theorem compile_numbers_stepping : ∃ plans t',
    stepModes.mapM (compile (some (.untyped symbols))) (world, stepping) = .ok plans t' ∧
      plans.map (fun plan => (plan.ids.length, plan.sharedCalls.length)) = [(7, 1), (4, 0)] ∧
      Forall₂ (fun mode plan => t'.2.plan? mode 0 = some plan ∧ t'.2.plans.refresh plan = plan ∧
        plan.sharedCalls.Pairwise (fun k l => (k == l) = false) ∧
        plan.ids = (List.range' 1 plan.ids.length).map some ∧
        ∀ (scratch : Scratch ℚ) graded d rows,
          (Inspection.layPlan scratch graded d plan "" 0).run [] = .ok ((), rows) →
            rows.length = plan.ids.length ∧ Inspection.Records scratch rows) stepModes plans := by
  obtain ⟨plans, t', h, hcounts⟩ := compile_stepping
  exact ⟨plans, t', h, hcounts, Run.compile_numbers rfl (by decide) h⟩

end Sample

end BeliefLogic
