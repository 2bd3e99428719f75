import Mathlib
import BeliefLogic.Scalar

/-!
# Exact scalars

A linearly ordered field stores every number as it is, and no operation fails.
-/

namespace BeliefLogic

/-- A linearly ordered field with the other functions of scalars. -/
class ExactScalar (α : Type) extends Field α, LinearOrder α, IsStrictOrderedRing α where
  exp : α → α
  log : α → α
  sqrt : α → α
  toFloat : α → Float

/-- Exact scalars with the laws of the exponential. -/
class ExactExponential (α : Type) extends ExactScalar α where
  /-- The exponential of a sum is the product of the exponentials. -/
  exp_add : ∀ a b : α, exp (a + b) = exp a * exp b
  exp_pos : ∀ a : α, 0 < exp a

namespace ExactScalar

variable {α : Type} [ExactScalar α]

/-- The value of a written number; what is none counts as zero. -/
def ofLiteral : Text.Literal → α
  | .decimal negative digits exponent =>
    (if negative then -1 else 1) * ((digits : α) * (10 : α) ^ exponent)
  | .infinite _ | .undefined => 0

/-- Nothing is rounded, and no number is out of bounds. -/
instance (priority := low) toScalar : Scalar α where
  toAdd := inferInstance
  toSub := inferInstance
  toMul := inferInstance
  toDiv := inferInstance
  toNeg := inferInstance
  toZero := inferInstance
  toOne := inferInstance
  toLT := inferInstance
  toLE := inferInstance
  decLt := inferInstance
  decLe := inferInstance
  exp := ExactScalar.exp
  log := ExactScalar.log
  sqrt := ExactScalar.sqrt
  single x := x
  isFinite _ := true
  isUndefined _ := false
  isZero x := decide (x = 0)
  ofLiteral := ofLiteral
  toFloat := ExactScalar.toFloat
  greatestSingle := none
  greatest := (2 ^ 1024 - 2 ^ 971 : ℕ)
  leastPositive := 1 / (2 ^ 1022 : ℕ)

end ExactScalar

/-- The real numbers. Reports print nothing of them. -/
noncomputable instance : ExactExponential ℝ where
  exp := Real.exp
  log := Real.log
  sqrt := Real.sqrt
  toFloat _ := 0
  exp_add := Real.exp_add
  exp_pos := Real.exp_pos

/-- The rational numbers. Functions that leave them are constant. -/
instance : ExactExponential ℚ where
  exp _ := 1
  log _ := 0
  sqrt _ := 0
  toFloat _ := 0
  exp_add _ _ := (one_mul 1).symm
  exp_pos _ := one_pos

namespace Scalar

variable {α : Type} [ExactScalar α]

@[simp] theorem single_eq (x : α) : single x = x := rfl

@[simp] theorem isFinite_eq (x : α) : isFinite x = true := rfl

@[simp] theorem isUndefined_eq (x : α) : isUndefined x = false := rfl

@[simp] theorem isZero_eq (x : α) : isZero x = decide (x = 0) := rfl

@[simp] theorem ofNat_eq (n : ℕ) : (ofNat n : α) = n := by
  change (1 : α) * ((n : α) * 10 ^ (0 : ℤ)) = n
  rw [zpow_zero, mul_one, one_mul]

@[simp] theorem plus_eq (a b : α) : plus a b = a + b := rfl

@[simp] theorem minus_eq (a b : α) : minus a b = a - b := rfl

@[simp] theorem times_eq (a b : α) : times a b = a * b := rfl

@[simp] theorem watch_eq (operation : String) (atPole : Bool) (operands : List α) (x : α) :
    watch operation atPole operands x = .ok x :=
  watch_of_isFinite operation atPole operands rfl

@[simp] theorem store_eq (x : α) : store x = .ok x := by simp [store]

@[simp] theorem add?_eq (a b : α) : add? a b = .ok (a + b) := by simp [add?]

@[simp] theorem sub?_eq (a b : α) : sub? a b = .ok (a - b) := by simp [sub?]

@[simp] theorem mul?_eq (a b : α) : mul? a b = .ok (a * b) := by simp [mul?]

@[simp] theorem div?_eq (a b : α) : div? a b = .ok (a / b) := by simp [div?]

@[simp] theorem exp?_eq (a : α) : exp? a = .ok (ExactScalar.exp a) := by
  rfl

@[simp] theorem accumulate?_eq (a b : α) : accumulate? a b = .ok (a + b) := by simp [accumulate?]

@[simp] theorem sum_eq (xs : List α) : sum xs = xs.sum := by
  have key (a : α) : xs.foldl plus a = a + xs.sum := by
    induction xs generalizing a with
    | nil => simp
    | cons x xs ih => simp [ih, add_assoc]
  simpa [sum] using key 0

@[simp] theorem sum?_eq (xs : List α) : sum? xs = .ok xs.sum := by
  have key (a : α) : xs.foldlM accumulate? a = .ok (a + xs.sum) := by
    induction xs generalizing a with
    | nil => simp [pure, Except.pure]
    | cons x xs ih => simp [ih, add_assoc, bind, Except.bind]
  simpa [sum?] using key 0

end Scalar

end BeliefLogic
