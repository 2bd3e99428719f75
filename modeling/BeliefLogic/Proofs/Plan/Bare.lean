import BeliefLogic.Proofs.Database
import BeliefLogic.Proofs.Plan.Result

/-!
# Bare plans

Over a database without types a plan has the result of its bare plan.
-/

namespace BeliefLogic

open Outcome List

mutual

def Plan.bare : Plan → Plan
  | .null _ m => .null {} m
  | .log _ p => .log {} (Plan.bare p)
  | .softmax _ p => .softmax {} (Plan.bare p)
  | .sum _ ps => .sum {} (Plan.bareAll ps)
  | .sequence _ xs y ss r => .sequence {} xs y (Step.bareAll ss) r

def Plan.bareAll : List Plan → List Plan
  | [] => []
  | p :: ps => Plan.bare p :: Plan.bareAll ps

def Step.bare : Step → Step
  | .act i a => .act { target := i.target } a
  | .call i x m d p => .call { target := i.target } x m d (Plan.bare p)

def Step.bareAll : List Step → List Step
  | [] => []
  | s :: ss => Step.bare s :: Step.bareAll ss

end

mutual

/-- Whether no sequence of a plan binds a variable twice. -/
def Plan.isDistinct : Plan → Bool
  | .null _ _ => true
  | .log _ p => Plan.isDistinct p
  | .softmax _ p => Plan.isDistinct p
  | .sum _ ps => Plan.areDistinct ps
  | .sequence _ _ _ ss _ => decide (ss.map Step.target).Nodup && Step.areDistinct ss

/-- Whether no sequence of plans binds a variable twice. -/
def Plan.areDistinct : List Plan → Bool
  | [] => true
  | p :: ps => Plan.isDistinct p && Plan.areDistinct ps

/-- Whether no sequence that a step calls binds a variable twice. -/
def Step.isDistinct : Step → Bool
  | .act _ _ => true
  | .call _ _ _ _ p => Plan.isDistinct p

/-- Whether no sequence that steps call binds a variable twice. -/
def Step.areDistinct : List Step → Bool
  | [] => true
  | s :: ss => Step.isDistinct s && Step.areDistinct ss

end

theorem Plan.bareAll_eq_map (ps : List Plan) : Plan.bareAll ps = ps.map Plan.bare := by
  induction ps with
  | nil => rfl
  | cons p ps ih => rw [Plan.bareAll, ih, map_cons]

theorem Step.bareAll_eq_map (ss : List Step) : Step.bareAll ss = ss.map Step.bare := by
  induction ss with
  | nil => rfl
  | cons s ss ih => rw [Step.bareAll, ih, map_cons]

theorem Plan.areDistinct_iff {ps : List Plan} :
    Plan.areDistinct ps = true ↔ ∀ p ∈ ps, p.isDistinct = true := by
  induction ps with
  | nil => simp [Plan.areDistinct]
  | cons p ps ih => simp [Plan.areDistinct, ih]

theorem Step.areDistinct_iff {ss : List Step} :
    Step.areDistinct ss = true ↔ ∀ s ∈ ss, s.isDistinct = true := by
  induction ss with
  | nil => simp [Step.areDistinct]
  | cons s ss ih => simp [Step.areDistinct, ih]

@[simp] theorem Step.target_bare (s : Step) : s.bare.target = s.target := by
  cases s <;> rfl

theorem Step.map_target_bareAll (ss : List Step) :
    (Step.bareAll ss).map Step.target = ss.map Step.target := by
  simp [Step.bareAll_eq_map]

@[simp] theorem Plan.bare_setInfo (i : PlanInfo) (p : Plan) : (p.setInfo i).bare = p.bare := by
  cases p <;> rfl

theorem Plan.bare_sumOf (ps : List Plan) : (Plan.sumOf ps).bare = (Plan.sum {} ps).bare := by
  rw [Plan.sumOf, Plan.bare, Plan.bare, Plan.bareAll_eq_map, Plan.bareAll_eq_map, map_map]
  congr 1
  refine map_congr_left fun p _ => ?_
  simp only [Function.comp_apply]
  split
  · exact Plan.bare_setInfo _ p
  · rfl

mutual

theorem Plan.isDistinct_bare : ∀ p : Plan, p.bare.isDistinct = p.isDistinct
  | .null _ _ => rfl
  | .log _ p => Plan.isDistinct_bare p
  | .softmax _ p => Plan.isDistinct_bare p
  | .sum _ ps => Plan.areDistinct_bareAll ps
  | .sequence _ _ _ ss _ => by
    rw [Plan.bare, Plan.isDistinct, Plan.isDistinct, Step.map_target_bareAll,
      Step.areDistinct_bareAll ss]

theorem Plan.areDistinct_bareAll : ∀ ps : List Plan,
    Plan.areDistinct (Plan.bareAll ps) = Plan.areDistinct ps
  | [] => rfl
  | p :: ps => congrArg₂ _ (Plan.isDistinct_bare p) (Plan.areDistinct_bareAll ps)

theorem Step.isDistinct_bare : ∀ s : Step, s.bare.isDistinct = s.isDistinct
  | .act _ _ => rfl
  | .call _ _ _ _ p => Plan.isDistinct_bare p

theorem Step.areDistinct_bareAll : ∀ ss : List Step,
    Step.areDistinct (Step.bareAll ss) = Step.areDistinct ss
  | [] => rfl
  | s :: ss => congrArg₂ _ (Step.isDistinct_bare s) (Step.areDistinct_bareAll ss)

end

/-- A check does without numbers and types. -/
structure NodeCheck.Bare (K : NodeCheck) : Prop where
  plan : ∀ p : Plan, K.plan p.bare ↔ K.plan p
  step : ∀ t : Step, K.step t.bare ↔ K.step t

variable {K : NodeCheck}

mutual

/-- Whether such a check is met can be seen from the bare plan. -/
theorem Plan.meets_bare (hK : K.Bare) : ∀ p : Plan, p.bare.Meets K ↔ p.Meets K
  | .null i m => hK.plan (.null i m)
  | .log i p => and_congr (hK.plan (.log i p)) (Plan.meets_bare hK p)
  | .softmax i p => and_congr (hK.plan (.softmax i p)) (Plan.meets_bare hK p)
  | .sum i ps => and_congr (hK.plan (.sum i ps)) (Plan.allMeet_bareAll hK ps)
  | .sequence i xs y ss r =>
    and_congr (hK.plan (.sequence i xs y ss r)) (Step.allMeet_bareAll hK ss)

theorem Plan.allMeet_bareAll (hK : K.Bare) : ∀ ps : List Plan,
    Plan.AllMeet K (Plan.bareAll ps) ↔ Plan.AllMeet K ps
  | [] => .rfl
  | p :: ps => and_congr (Plan.meets_bare hK p) (Plan.allMeet_bareAll hK ps)

theorem Step.meets_bare (hK : K.Bare) : ∀ t : Step, t.bare.Meets K ↔ t.Meets K
  | .act i a => hK.step (.act i a)
  | .call i x m d p => and_congr (hK.step (.call i x m d p)) (Plan.meets_bare hK p)

theorem Step.allMeet_bareAll (hK : K.Bare) : ∀ ts : List Step,
    Step.AllMeet K (Step.bareAll ts) ↔ Step.AllMeet K ts
  | [] => .rfl
  | t :: ts => and_congr (Step.meets_bare hK t) (Step.allMeet_bareAll hK ts)

end

theorem Plan.Meets.congr {p q : Plan} (hp : p.Meets K) (hK : K.Bare) (h : p.bare = q.bare) :
    q.Meets K := by
  rwa [← Plan.meets_bare hK, ← h, Plan.meets_bare hK]

variable {α : Type} [ExactScalar α] {s : Settings α} {db : Database α} {n : ℕ}

/-- Over a database without types, actions do without types. -/
theorem Database.Regular.eval_type (hdb : db.Regular n) (b : Bindings α)
    (type type' : Option String) (a : Action) :
    (a.eval s db b type).toOption = (a.eval s db b type').toOption := by
  cases a with
  | oneHot mode constant =>
    obtain ⟨symbols, hs, -⟩ := hdb.untyped
    change (db.oneHot constant type).toOption = (db.oneHot constant type').toOption
    rcases Database.oneHot_untyped hs constant type type' with h | ⟨t, t', h, h'⟩
    · rw [h]
    · rw [h, h']
      rfl
  | _ => rfl

mutual

/-- The result of a plan is that of the bare plan. -/
theorem Plan.result_bare (hdb : db.Regular n) (inputs : List (Matrix α)) : ∀ p : Plan,
    (p.bare.result s db inputs).toOption = (p.result s db inputs).toOption
  | .null i _ => by
    cases inputs with
    | nil => rfl
    | cons x xs => simp [Plan.bare, Plan.result, hdb.zeros_eq]
  | .log _ p => by
    simp [Plan.bare, Plan.result, toOption_bind, Plan.result_bare hdb inputs p]
  | .softmax _ p => by
    simp [Plan.bare, Plan.result, toOption_bind, Plan.result_bare hdb inputs p]
  | .sum _ ps => by
    simp [Plan.bare, Plan.result, toOption_bind, Plan.results_bareAll hdb inputs ps]
  | .sequence _ xs y ss _ => by
    simp only [Plan.bare, Plan.result]
    split
    · simp [toOption_bind, Step.bindAll_bareAll hdb ss]
    · rfl

theorem Plan.results_bareAll (hdb : db.Regular n) (inputs : List (Matrix α)) : ∀ ps : List Plan,
    (Plan.results s db inputs (Plan.bareAll ps)).toOption = (Plan.results s db inputs ps).toOption
  | [] => rfl
  | p :: ps => by
    simp only [Plan.bareAll, Plan.results, toOption_bind, Plan.result_bare hdb inputs p,
      Plan.results_bareAll hdb inputs ps]

theorem Step.result_bare (hdb : db.Regular n) (b : Bindings α) : ∀ t : Step,
    (t.bare.result s db b).toOption = (t.result s db b).toOption
  | .act _ a => hdb.eval_type b _ _ a
  | .call _ x m d p => by
    simp [Step.bare, Step.result, toOption_bind, Plan.result_bare hdb _ p]

theorem Step.bindAll_bareAll (hdb : db.Regular n) : ∀ (ts : List Step) (b : Bindings α),
    (Step.bindAll s db (Step.bareAll ts) b).toOption = (Step.bindAll s db ts b).toOption
  | [], _ => rfl
  | t :: ts, b => by
    simp [Step.bareAll, Step.bindAll, toOption_bind, Step.result_bare hdb b t,
      Step.bindAll_bareAll hdb ts]

end

theorem Plan.result_congr (hdb : db.Regular n) {p q : Plan} (h : p.bare = q.bare)
    {inputs : List (Matrix α)} {m : Matrix α} (hp : p.result s db inputs = .ok m) :
    q.result s db inputs = .ok m := by
  rw [← toOption_eq_some] at hp ⊢
  rw [← Plan.result_bare hdb, ← h, Plan.result_bare hdb, hp]

end BeliefLogic
