import BeliefLogic.Proofs.Plan.Bare

/-!
# Numbers of plans

A plan is numbered before its parts and a call before the plan that it calls.
-/

namespace BeliefLogic

open Run

mutual

/-- A plan without notes, with other numbers. -/
def Plan.relabel (f : Option ℕ → Option ℕ) : Plan → Plan
  | .null i m => .null { id := f i.id } m
  | .log i p => .log { id := f i.id } (Plan.relabel f p)
  | .softmax i p => .softmax { id := f i.id } (Plan.relabel f p)
  | .sum i ps => .sum { id := f i.id } (Plan.relabelAll f ps)
  | .sequence i xs y ss r => .sequence { id := f i.id } xs y (Step.relabelAll f ss) r

/-- Plans without notes, with other numbers. -/
def Plan.relabelAll (f : Option ℕ → Option ℕ) : List Plan → List Plan
  | [] => []
  | p :: ps => Plan.relabel f p :: Plan.relabelAll f ps

/-- A step without notes, with other numbers. -/
def Step.relabel (f : Option ℕ → Option ℕ) : Step → Step
  | .act i a => .act { id := f i.id, target := i.target } a
  | .call i x m d p => .call { id := f i.id, target := i.target } x m d (Plan.relabel f p)

/-- Steps without notes, with other numbers. -/
def Step.relabelAll (f : Option ℕ → Option ℕ) : List Step → List Step
  | [] => []
  | s :: ss => Step.relabel f s :: Step.relabelAll f ss

end

/-- Of numbers only is left where they are. -/
def unnumbered (id : Option ℕ) : Option ℕ := id.map fun _ => 0

/-- A plan without notes, in which of numbers only is left where they are. -/
abbrev Plan.outline (p : Plan) : Plan := p.relabel unnumbered

/-- A step without notes, in which of numbers only is left where they are. -/
abbrev Step.outline (s : Step) : Step := s.relabel unnumbered

section

variable (k : Option ℕ)

mutual

theorem Plan.relabel_bare : ∀ p : Plan, p.bare.relabel (fun _ => k) = p.relabel fun _ => k
  | .null _ _ => rfl
  | .log _ p => congrArg (Plan.log _) (Plan.relabel_bare p)
  | .softmax _ p => congrArg (Plan.softmax _) (Plan.relabel_bare p)
  | .sum _ ps => congrArg (Plan.sum _) (Plan.relabelAll_bareAll ps)
  | .sequence _ _ _ ss _ => congrArg (Plan.sequence _ _ _ · _) (Step.relabelAll_bareAll ss)

theorem Plan.relabelAll_bareAll : ∀ ps : List Plan,
    Plan.relabelAll (fun _ => k) (Plan.bareAll ps) = Plan.relabelAll (fun _ => k) ps
  | [] => rfl
  | p :: ps => congrArg₂ List.cons (Plan.relabel_bare p) (Plan.relabelAll_bareAll ps)

theorem Step.relabel_bare : ∀ s : Step, s.bare.relabel (fun _ => k) = s.relabel fun _ => k
  | .act _ _ => rfl
  | .call _ _ _ _ p => congrArg (Step.call _ _ _ _) (Plan.relabel_bare p)

theorem Step.relabelAll_bareAll : ∀ ss : List Step,
    Step.relabelAll (fun _ => k) (Step.bareAll ss) = Step.relabelAll (fun _ => k) ss
  | [] => rfl
  | s :: ss => congrArg₂ List.cons (Step.relabel_bare s) (Step.relabelAll_bareAll ss)

end

end

mutual

/-- The number of a plan, and then those of its parts. -/
def Plan.ids : Plan → List (Option ℕ)
  | .null i _ => [i.id]
  | .log i p => i.id :: Plan.ids p
  | .softmax i p => i.id :: Plan.ids p
  | .sum i ps => i.id :: Plan.allIds ps
  | .sequence i _ _ ss _ => i.id :: Step.allIds ss

def Plan.allIds : List Plan → List (Option ℕ)
  | [] => []
  | p :: ps => Plan.ids p ++ Plan.allIds ps

def Step.ids : Step → List (Option ℕ)
  | .act i _ => [i.id]
  | .call i _ _ _ p => i.id :: Plan.ids p

def Step.allIds : List Step → List (Option ℕ)
  | [] => []
  | s :: ss => Step.ids s ++ Step.allIds ss

end

/-- Numbers that follow each other from one up to the next that is free. -/
def Counts : ℕ → List (Option ℕ) → ℕ → Prop
  | n, [], next => next = n
  | n, id :: ids, next => id = some n ∧ Counts (n + 1) ids next

theorem counts_append {n next : ℕ} {ids ids' : List (Option ℕ)} :
    Counts n (ids ++ ids') next ↔ ∃ m, Counts n ids m ∧ Counts m ids' next := by
  induction ids generalizing n with
  | nil => simp [Counts]
  | cons id ids ih => simp [Counts, ih, and_assoc]

theorem Counts.eq_range {n next : ℕ} {ids : List (Option ℕ)} (h : Counts n ids next) :
    next = n + ids.length ∧ ids = (List.range' n ids.length).map some := by
  induction ids generalizing n with
  | nil => exact ⟨h, rfl⟩
  | cons id ids ih =>
    obtain ⟨rfl, hrest⟩ := h
    obtain ⟨hnext, hids⟩ := ih hrest
    rw [List.length_cons, List.range'_succ, List.map_cons, ← hids]
    exact ⟨by omega, rfl⟩

theorem Counts.nodup {n next : ℕ} {ids : List (Option ℕ)} (h : Counts n ids next) : ids.Nodup := by
  rw [h.eq_range.2]
  exact List.Nodup.map (Option.some_injective ℕ) List.nodup_range'

/-- Settings that ask for no report on plans and steps. -/
def Settings.IsSilent {α : Type} (s : Settings α) : Prop :=
  s.traceFunctions = false ∧ s.traceOperations = false

theorem Plan.listed_of_silent {α : Type} {s : Settings α} (hs : s.IsSilent) {p : Plan}
    (hp : p.isNumbered = true) : p.Listed s :=
  ⟨hp, fun h => by simp [hs.1] at h⟩

theorem Step.listed_of_silent {α : Type} {s : Settings α} (hs : s.IsSilent) {t : Step}
    (ht : t.info.id.isSome = true) : t.Listed s :=
  ⟨ht, fun h => by simp [hs.2] at h⟩

/-- A call is numbered before the plan it calls, which is kept unless a copy. -/
theorem Step.number_call (copying : Bool) (i : StepInfo) (x : String) (m : Mode) (d : ℤ) (p : Plan)
    (n : ℕ) (table : PlanTable) :
    ∃ again j q, j.target = i.target ∧ j.id = some n ∧ (Plan.number again p (n + 1)).run table = q ∧
      ((Step.number copying (.call i x m d p) n).run table).1 = (.call j x m d q.1.1, q.1.2) ∧
      (again = true ∧ ((Step.number copying (.call i x m d p) n).run table).2 = q.2 ∨
        again = false ∧ (table.get? (m, d)).elim false Plan.isNumbered = false ∧
          ((Step.number copying (.call i x m d p) n).run table).2 = q.2.put (m, d) q.1.1) := by
  cases copying with
  | true =>
    exact ⟨true, ⟨some n, i.target, ((Plan.number true p (n + 1)).run table).1.1.outputType, none⟩, _,
      rfl, rfl, rfl, rfl, .inl ⟨rfl, rfl⟩⟩
  | false =>
    refine ⟨(table.get? (m, d)).elim false Plan.isNumbered, { i with id := some n }, _, rfl, rfl, rfl,
      ?_⟩
    cases hknown : (table.get? (m, d)).elim false Plan.isNumbered with
    | true =>
      simp only [Step.number, StateT.run_bind, StateT.run_get, pure_bind, hknown]
      exact ⟨rfl, .inl ⟨trivial, rfl⟩⟩
    | false =>
      simp only [Step.number, StateT.run_bind, StateT.run_get, pure_bind, hknown]
      exact ⟨rfl, .inr ⟨trivial, trivial, rfl⟩⟩

/-- A plan with the numbers from one up to the next that is free. -/
structure Plan.Numbers (p q : Plan) (n next : ℕ) : Prop where
  bare : q.bare = p.bare
  outline : q.outline = p.relabel fun _ => some 0
  counts : Counts n q.ids next
  /-- Settings that ask for nothing do not keep the plan from ending. -/
  told : ∀ {α : Type} {s : Settings α}, s.IsSilent → q.Meets (.told s)

structure Plan.AllNumbers (ps qs : List Plan) (n next : ℕ) : Prop where
  bare : Plan.bareAll qs = Plan.bareAll ps
  outline : Plan.relabelAll unnumbered qs = Plan.relabelAll (fun _ => some 0) ps
  counts : Counts n (Plan.allIds qs) next
  told : ∀ {α : Type} {s : Settings α}, s.IsSilent → Plan.AllMeet (.told s) qs

structure Step.Numbers (s t : Step) (n next : ℕ) : Prop where
  bare : t.bare = s.bare
  outline : t.outline = s.relabel fun _ => some 0
  counts : Counts n t.ids next
  told : ∀ {α : Type} {c : Settings α}, c.IsSilent → t.Meets (.told c)

structure Step.AllNumbers (ss ts : List Step) (n next : ℕ) : Prop where
  bare : Step.bareAll ts = Step.bareAll ss
  outline : Step.relabelAll unnumbered ts = Step.relabelAll (fun _ => some 0) ss
  counts : Counts n (Step.allIds ts) next
  told : ∀ {α : Type} {c : Settings α}, c.IsSilent → Step.AllMeet (.told c) ts

mutual

/-- What numbering makes of a plan. -/
theorem Plan.number_spec (copying : Bool) : ∀ (p : Plan) (n : ℕ) (table : PlanTable),
    p.Numbers ((Plan.number copying p n).run table).1.1 n ((Plan.number copying p n).run table).1.2
  | .null _ _, _, _ => ⟨rfl, rfl, ⟨rfl, rfl⟩, fun hs => Plan.listed_of_silent hs rfl⟩
  | .log _ p, n, table => by
    have h := Plan.number_spec copying p (n + 1) table
    exact ⟨congrArg (Plan.log {}) h.bare, congrArg (Plan.log _) h.outline, ⟨rfl, h.counts⟩,
      fun hs => ⟨Plan.listed_of_silent hs rfl, h.told hs⟩⟩
  | .softmax _ p, n, table => by
    have h := Plan.number_spec copying p (n + 1) table
    exact ⟨congrArg (Plan.softmax {}) h.bare, congrArg (Plan.softmax _) h.outline, ⟨rfl, h.counts⟩,
      fun hs => ⟨Plan.listed_of_silent hs rfl, h.told hs⟩⟩
  | .sum _ ps, n, table => by
    have h := Plan.numberAll_spec copying ps (n + 1) table
    exact ⟨congrArg (Plan.sum {}) h.bare, congrArg (Plan.sum _) h.outline, ⟨rfl, h.counts⟩,
      fun hs => ⟨Plan.listed_of_silent hs rfl, h.told hs⟩⟩
  | .sequence _ xs y ss r, n, table => by
    have h := Step.numberAll_spec copying ss (n + 1) table
    exact ⟨congrArg (Plan.sequence {} xs y · r) h.bare, congrArg (Plan.sequence _ xs y · r) h.outline,
      ⟨rfl, h.counts⟩, fun hs => ⟨Plan.listed_of_silent hs rfl, h.told hs⟩⟩

theorem Plan.numberAll_spec (copying : Bool) : ∀ (ps : List Plan) (n : ℕ) (table : PlanTable),
    Plan.AllNumbers ps ((Plan.numberAll copying ps n).run table).1.1 n
      ((Plan.numberAll copying ps n).run table).1.2
  | [], _, _ => ⟨rfl, rfl, rfl, fun _ => trivial⟩
  | p :: ps, n, table => by
    have h := Plan.number_spec copying p n table
    have h' := Plan.numberAll_spec copying ps ((Plan.number copying p n).run table).1.2
      ((Plan.number copying p n).run table).2
    exact ⟨congrArg₂ List.cons h.bare h'.bare, congrArg₂ List.cons h.outline h'.outline,
      counts_append.2 ⟨_, h.counts, h'.counts⟩, fun hs => ⟨h.told hs, h'.told hs⟩⟩

theorem Step.number_spec (copying : Bool) : ∀ (s : Step) (n : ℕ) (table : PlanTable),
    s.Numbers ((Step.number copying s n).run table).1.1 n ((Step.number copying s n).run table).1.2
  | .act _ _, _, _ => by
    cases copying <;> exact ⟨rfl, rfl, ⟨rfl, rfl⟩, fun hs => Step.listed_of_silent hs rfl⟩
  | .call i x m d p, n, table => by
    obtain ⟨again, j, _, htarget, hid, rfl, hrun, -⟩ := Step.number_call copying i x m d p n table
    have h := Plan.number_spec again p (n + 1) table
    rw [hrun]
    refine ⟨?_, ?_, ⟨hid, h.counts⟩, fun hs => ⟨Step.listed_of_silent hs ?_, h.told hs⟩⟩
    · rw [Step.bare, Step.bare, htarget, h.bare]
    · rw [Step.outline, Step.relabel, htarget, hid]
      exact congrArg (Step.call _ _ _ _) h.outline
    · simp [Step.info, hid]

theorem Step.numberAll_spec (copying : Bool) : ∀ (ss : List Step) (n : ℕ) (table : PlanTable),
    Step.AllNumbers ss ((Step.numberAll copying ss n).run table).1.1 n
      ((Step.numberAll copying ss n).run table).1.2
  | [], _, _ => ⟨rfl, rfl, rfl, fun _ => trivial⟩
  | s :: ss, n, table => by
    have h := Step.number_spec copying s n table
    have h' := Step.numberAll_spec copying ss ((Step.number copying s n).run table).1.2
      ((Step.number copying s n).run table).2
    exact ⟨congrArg₂ List.cons h.bare h'.bare, congrArg₂ List.cons h.outline h'.outline,
      counts_append.2 ⟨_, h.counts, h'.counts⟩, fun hs => ⟨h.told hs, h'.told hs⟩⟩

end

theorem Plan.bare_number (copying : Bool) (p : Plan) (n : ℕ) (table : PlanTable) :
    ((Plan.number copying p n).run table).1.1.bare = p.bare :=
  (Plan.number_spec copying p n table).bare

end BeliefLogic
