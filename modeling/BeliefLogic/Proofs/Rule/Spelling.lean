import Mathlib
import BeliefLogic.Rule.Building

/-!
# Rules spelled with operators

`//` binds tighter than `&`, which binds tighter than `|`; the value is the rule that is spelled.
-/

namespace BeliefLogic.Clause

variable {α : Type}

/-- The operators of a body, the one that binds tightest first. -/
inductive Operator where
  | over | both | either
  deriving DecidableEq

def Operator.apply : Operator → Clause α → Clause α → Clause α
  | .over => weighed
  | .both => conj
  | .either => ranging

/-- Operands with the operator before each of them. -/
abbrev Operands (α : Type) := List (Operator × Clause α)

/-- Applies an operator wherever it stands, from left to right. -/
def contract (o : Operator) : Clause α → Operands α → Clause α × Operands α
  | a, [] => (a, [])
  | a, (p, b) :: rest =>
    if p = o then contract o (o.apply a b) rest
    else (a, (p, (contract o b rest).1) :: (contract o b rest).2)

/-- The value of operands: operators that bind tighter are applied first. -/
def value : Operands α → Clause α
  | [] => {}
  | (_, a) :: rest =>
    let factors := contract .over a rest
    let parts := contract .both factors.1 factors.2
    (contract .either parts.1 parts.2).1

/-- A goal by itself, which is what an applied relation gives. -/
def goal (t : Term α) : Clause α := { body := [t] }

/-- Goals that are joined to what stands before them. -/
def goals (ts : List (Term α)) : Operands α := ts.map fun t => (.both, goal t)

/-- Goals that are joined, with an operator before the first one. -/
def joined (o : Operator) : List (Term α) → Operands α
  | [] => []
  | t :: ts => (o, goal t) :: goals ts

/-- `goal & goal // (feature & feature | goal & goal)`, without what is empty. -/
def spelled (body features generator : List (Term α)) : Operands α :=
  joined .both body ++ if features.isEmpty then []
    else [(.over, value (joined .both features ++ joined .either generator))]

def given {β : Type} (xs : List β) : Option (List β) := if xs.isEmpty then none else some xs

variable {a b : Clause α} {t : Term α} {ts : List (Term α)} {rest : Operands α} {o : Operator}

theorem contract_of_ne (h : ∀ e ∈ rest, e.1 ≠ o) : contract o a rest = (a, rest) := by
  induction rest generalizing a with
  | nil => rfl
  | cons e rest ih =>
    obtain ⟨he, hrest⟩ := List.forall_mem_cons.1 h
    simp [contract, he, ih hrest]

/-- Goals that are joined to a clause come after its own ones. -/
theorem contract_goals (ha : a.head = none) :
    contract .both a (goals ts ++ rest) = contract .both { a with body := a.body ++ ts } rest := by
  induction ts generalizing a with
  | nil => simp [goals]
  | cons t ts ih =>
    have hconj : conj a (goal t) = { a with body := a.body ++ [t] } := by
      obtain ⟨head, body, features, generator⟩ := a
      obtain rfl : head = none := ha
      cases features <;> cases generator <;> rfl
    simpa [goals, contract, Operator.apply, hconj] using ih (a := { a with body := a.body ++ [t] }) ha

theorem ne_over_of_mem_goals {e : Operator × Clause α} (h : e ∈ goals ts) : e.1 ≠ .over := by
  obtain ⟨t, -, rfl⟩ := List.mem_map.1 h
  simp

theorem value_goals (h : ∀ e ∈ rest, e.1 ≠ .over) : value (joined o (t :: ts) ++ rest) =
    let parts := contract .both { body := t :: ts } rest
    (contract .either parts.1 parts.2).1 := by
  have hover : ∀ e ∈ goals ts ++ rest, e.1 ≠ .over := fun e he =>
    (List.mem_append.1 he).elim ne_over_of_mem_goals (h e)
  simp only [joined, List.cons_append, value, contract_of_ne hover, contract_goals (a := goal t) rfl]
  rfl

/-- Features weigh a goal, over what they range over. -/
theorem weighed_block (f : Term α) (fs generator : List (Term α)) (t : Term α) :
    weighed (goal t) (value (joined .both (f :: fs) ++ joined .either generator)) =
      ⟨none, [t], some (f :: fs), given generator⟩ := by
  cases generator with
  | nil =>
    rw [joined, value_goals (by simp)]
    rfl
  | cons e es =>
    have hover : ∀ p ∈ joined .either (e :: es), p.1 ≠ .over :=
      List.forall_mem_cons.2 ⟨by simp, fun _ => ne_over_of_mem_goals⟩
    have hes : contract .both (goal e) (goals es) = ({ body := e :: es }, []) := by
      rw [← List.append_nil (goals es), contract_goals rfl]
      rfl
    rw [value_goals hover]
    simp only [joined, contract, hes]
    rfl

theorem contract_block {features generator : Option (List (Term α))}
    (hb : ∀ t, weighed (goal t) b = ⟨none, [t], features, generator⟩) (before : List (Term α)) :
    let factors := contract .over (goal t) (goals ts ++ [(.over, b)])
    contract .both (conj { body := before } factors.1) factors.2 =
      (⟨none, before ++ t :: ts, features, generator⟩, []) := by
  induction ts generalizing t before with
  | nil => simp [goals, contract, Operator.apply, hb, conj, join]
  | cons u ts ih =>
    simpa [goals, contract, Operator.apply, conj, join, goal] using ih (before ++ [t])

/-- The value of what is spelled is the rule spelled, and is written as it. -/
theorem derived_spelled [Scalar α] (d : Dialect) (h : Term α) {body features generator : List (Term α)}
    (hbody : body ≠ []) (hfeatures : features = [] → generator = []) :
    ∃ c, derived d (goal h) (value (spelled body features generator)) = .ok c ∧
      c = ⟨some h, body, given features, given generator⟩ ∧
      ∀ d', c.text d' = Rule.text ⟨some h.goal, body.map (·.goal), given (features.map (·.goal)),
        given (generator.map (·.goal))⟩ d' := by
  have hvalue : value (spelled body features generator) =
      ⟨none, body, given features, given generator⟩ := by
    obtain ⟨g, gs, rfl⟩ := List.exists_cons_of_ne_nil hbody
    cases features with
    | nil =>
      obtain rfl := hfeatures rfl
      exact value_goals (by simp)
    | cons f fs =>
      have hblock := weighed_block f fs generator
      cases gs with
      | nil => exact congrArg (fun c => (contract .either (contract .both c []).1 []).1) (hblock g)
      | cons u us =>
        exact congrArg (fun parts => (contract .either parts.1 parts.2).1) (contract_block hblock [g])
  have hmap (ts : List (Term α)) : (given ts).map (fun ts => ts.map (·.goal)) = given (ts.map (·.goal)) := by
    cases ts <;> rfl
  refine ⟨_, ?_, rfl, fun d' => ?_⟩
  · rw [hvalue]
    rfl
  · rw [text, rule, hmap, hmap]
    rfl

def pathTerm (functor : String) (args : List String) : Term Float := ⟨.text functor, args.map .text, true⟩

theorem derived_spelled_path : ∃ c, derived .clause (goal (pathTerm "p" ["X", "Y"])) (value (spelled
    [pathTerm "q" ["X", "Z"], pathTerm "r" ["Z", "Y"]] [pathTerm "w" ["F"]] [pathTerm "f" ["X", "F"]])) =
      .ok c ∧ c.text .operator = "p(X,Y) <= q(X,Z) & r(Z,Y) // w(F) | f(X,F)" := by
  obtain ⟨c, hc, -, htext⟩ := @derived_spelled Float _ .clause (pathTerm "p" ["X", "Y"])
    [pathTerm "q" ["X", "Z"], pathTerm "r" ["Z", "Y"]] [pathTerm "w" ["F"]] [pathTerm "f" ["X", "F"]]
    (by simp) (by simp)
  exact ⟨c, hc, (htext .operator).trans (by decide +kernel)⟩

end BeliefLogic.Clause
