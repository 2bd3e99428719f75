import BeliefLogic.Database.Basic

/-!
# Operations that choose a representation

Softmax, sums of rows and products with a repeated row work on a dense copy if that is small enough.
-/

namespace BeliefLogic

namespace Matrix

variable {α : Type} [Scalar α]

/-- The score of the null entity. -/
def nullScore : α := Scalar.ofInt (-10)

/-- The share of a score that vanishes. -/
def leastShare : α := Scalar.single (Scalar.exp nullScore)

/-- Rows with a small score for the null entity. -/
def withNull (m : Matrix α) : Except Error (Matrix α) := do
  let null ← (← Database.nullRows m.height m.width).scale nullScore
  null.add m

/-- The softmax, on a dense copy if allowed. -/
def normalized (limit : DenseLimit α) (m : Matrix α) : Except Error (Matrix α) := do
  match ← m.denseCopy limit with
  | .made d w => return (← d.softmax).toMatrix w
  | _ => m.softmaxRows leastShare

/-- The softmax of rows, each with a small score for the null entity. -/
def softmax (limit : DenseLimit α) (m : Matrix α) : Except Error (Matrix α) := do
  (← m.withNull).normalized limit

/-- The sum of all rows, on a dense copy if allowed. -/
def summedRows (limit : DenseLimit α) (m : Matrix α) : Except Error (Matrix α) := do
  match ← m.denseCopy limit with
  | .made d w => return (← d.rowSum).toMatrix w
  | _ => return m.rowSum

/-- The product with a repeated row. -/
def multiplyRow (limit : DenseLimit α) (m v : Matrix α) : Except Error (Matrix α) := do
  match ← m.denseCopies limit v with
  | .made (d, e) w => return (← d.multiply e).toMatrix w
  | _ => m.hadamard (← v.replicate m.height)

/-- Whether matrices have to be broadcast to be multiplied. -/
def needBroadcast (m n : Matrix α) : Except Error Bool :=
  if m.height = n.height then .ok false
  else if m.height = 1 ∨ n.height = 1 then .ok true
  else .error (.refused (.unequalRows m.height n.height))

/-- The elementwise product; a single row is paired with every row. -/
def broadcastMultiply (limit : DenseLimit α) (m n : Matrix α) : Except Error (Matrix α) := do
  if ← m.needBroadcast n then m.multiplyRow limit n else m.hadamard n

/-- Multiplies rows by the sums of other rows, on dense copies if chosen. -/
def weighted (dense : Bool) (limit : DenseLimit α) (m n : Matrix α) : Except Error (Matrix α) := do
  if dense then
    match ← m.denseCopies limit n with
    | .made (d, e) w => return (← d.weightByRowSum e).toMatrix w
    | _ => m.weightByRowSum n
  else m.weightByRowSum n

end Matrix

namespace Run

variable {α σ : Type} [Scalar α]

/-- Reports a dense copy that would be too large, if asked. -/
def reportCopy {γ : Type} (copy : Except Error (DenseCopy γ)) : Run α σ Unit := do
  match copy with
  | .ok (.tooLarge sparse dense) =>
    if (← settings).reportDensity then
      warn ("no expansion: sparse size only " ++ Text.integer sparse ++ " dense size is " ++
        Text.integer dense)
  | _ => pure ()

/-- The softmax under the settings. -/
def softmax (m : Matrix α) : Run α σ (Matrix α) := do
  let limit := (← settings).denseLimit
  let scores ← lift m.withNull
  reportCopy (scores.denseCopy limit)
  lift (scores.normalized limit)

/-- The sum of all rows under the settings. -/
def summedRows (m : Matrix α) : Run α σ (Matrix α) := do
  let limit := (← settings).denseLimit
  reportCopy (m.denseCopy limit)
  lift (m.summedRows limit)

/-- The product with a repeated row under the settings. -/
def multiplyRow (m v : Matrix α) : Run α σ (Matrix α) := do
  let limit := (← settings).denseLimit
  reportCopy (m.denseCopies limit v)
  lift (m.multiplyRow limit v)

/-- The elementwise product; a single row is paired with every row. -/
def broadcastMultiply (m n : Matrix α) : Run α σ (Matrix α) := do
  if ← lift (m.needBroadcast n) then multiplyRow m n else lift (m.hadamard n)

/-- Rows weighted by row sums under the settings. -/
def weighted (m n : Matrix α) : Run α σ (Matrix α) := do
  let s ← settings
  if s.denseWeighting then reportCopy (m.denseCopies s.denseLimit n)
  lift (m.weighted s.denseWeighting s.denseLimit n)

end Run

end BeliefLogic
