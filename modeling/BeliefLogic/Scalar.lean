import BeliefLogic.Error

/-!
# Scalars

Weights are written over any type with the operations of a `Scalar`. Matrices store rounded scalars.
The instance that runs is double precision with single-precision storage; an exact type rounds
nothing. Operations on stored values fail if a result is not finite although its operands are.
-/

namespace BeliefLogic

/-- Numbers with what weights and gradients need. -/
class Scalar (α : Type) extends Add α, Sub α, Mul α, Div α, Neg α, Zero α, One α, LT α, LE α where
  decLt (a b : α) : Decidable (a < b)
  decLe (a b : α) : Decidable (a ≤ b)
  exp : α → α
  log : α → α
  sqrt : α → α
  single : α → α
  isFinite : α → Bool
  isUndefined : α → Bool
  isZero : α → Bool
  ofLiteral : Text.Literal → α
  toFloat : α → Float
  greatestSingle : Option α
  greatest : α
  leastPositive : α

namespace Scalar

variable {α : Type} [Scalar α]

instance (a b : α) : Decidable (a < b) := decLt a b

instance (a b : α) : Decidable (a ≤ b) := decLe a b

def ofNat (n : Nat) : α := ofLiteral (.decimal false n 0)

def ofInt (n : Int) : α := ofLiteral (.decimal (n < 0) n.natAbs 0)

def plus (a b : α) : α := single (a + b)

def minus (a b : α) : α := single (a - b)

def times (a b : α) : α := single (a * b)

/-- Passes a result on unless its operands show a fault, as at a pole. -/
def watch (operation : String) (atPole : Bool) (operands : List α) (result : α) :
    Except Error α :=
  let fault (what : String) : Except Error α :=
    .error (.arithmetic (what ++ " encountered in " ++ operation))
  if isFinite result then .ok result
  else if isUndefined result then
    if operands.any isUndefined then .ok result else fault "invalid value"
  else if operands.all isFinite then
    fault (if atPole then "divide by zero" else "overflow")
  else .ok result

def store (x : α) : Except Error α := watch "cast" false [x] (single x)

def add? (a b : α) : Except Error α := watch "add" false [a, b] (plus a b)

def sub? (a b : α) : Except Error α := watch "subtract" false [a, b] (minus a b)

def mul? (a b : α) : Except Error α := watch "multiply" false [a, b] (times a b)

def div? (a b : α) : Except Error α := watch "divide" (isZero b) [a, b] (single (a / b))

def ratio? (a b : α) : Except Error α := watch "scalar divide" (isZero b) [a, b] (single (a / b))

def exp? (a : α) : Except Error α := watch "exp" false [a] (single (exp a))

def log? (a : α) : Except Error α := watch "log" (isZero a) [a] (single (log a))

/-- `log (1 + x)`, exact to first order near zero. -/
def log1p (x : α) : α :=
  let y := 1 + x
  if isZero (y - 1) then x else if isFinite y then log y * (x / (y - 1)) else log y

def log1p? (a : α) : Except Error α := watch "log1p" (isZero (1 + a)) [a] (single (log1p a))

def sqrt? (a : α) : Except Error α := watch "sqrt" false [a] (single (sqrt a))

def accumulate? (sum x : α) : Except Error α := watch "reduce" false [sum, x] (plus sum x)

def sum? (xs : List α) : Except Error α := xs.foldlM accumulate? 0

def sum (xs : List α) : α := xs.foldl plus 0

def max (a b : α) : α :=
  if isUndefined a then a else if isUndefined b then b else if a < b then b else a

/-- Confines a value to an interval. Where the ends cross, the upper one counts. -/
def clip (lo hi : Option α) (x : α) : α :=
  if isUndefined x then x
  else
    let raised := match lo with
      | some lo => if x < lo then lo else x
      | none => x
    match hi with
    | some hi => if hi < raised then hi else raised
    | none => raised

@[simp] theorem watch_of_isFinite (operation : String) (atPole : Bool) (operands : List α) {x : α}
    (h : isFinite x = true) : watch operation atPole operands x = .ok x := by
  simp [watch, h]

end Scalar

instance : Scalar Float where
  decLt := inferInstance
  decLe := inferInstance
  zero := 0.0
  one := 1.0
  exp := Float.exp
  log := Float.log
  sqrt := Float.sqrt
  single x := x.toFloat32.toFloat
  isFinite := Float.isFinite
  isUndefined := Float.isNaN
  isZero x := x == 0.0
  ofLiteral := Text.Literal.toFloat
  toFloat x := x
  greatestSingle := some 340282346638528859811704183484516925440.0
  greatest := 1.7976931348623157e308
  leastPositive := 2.2250738585072014e-308

end BeliefLogic
