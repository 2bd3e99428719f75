import BeliefLogic.Workbench.Data

/-!
# Changes of parameters in a session

Any key and value can be put in; only where changes are used must a key name a relation and a change
be a matrix.
-/

namespace BeliefLogic.Workbench

open Run

variable {α : Type} [Scalar α]

namespace Changes

def ofGradients (g : Gradients α) : Changes α where
  sums := g.sums.entries.map fun (p, m) => (.ofPredicate p, .matrix m)
  figures := g.figures
  fitted := g.fitted

def put (c : Changes α) (key v : Value α) : Changes α :=
  match keyPosition? c.sums key with
  | some i => { c with sums := c.sums.modify i fun e => (e.1, v) }
  | none => { c with sums := c.sums ++ [(key, v)] }

def accumulate (c : Changes α) (key delta : Value α) : Work α (Changes α) := do
  requireStored delta (.text ("deltaGradient for " ++ key.printed (← settings).dialect))
  match ← entryOf? c.sums key with
  | none => return c.put key delta
  | some sum => return c.put key (.ofOperand (← lift (sum.operand.add delta.operand)))

def map (c : Changes α) (f : Elementwise) : Work α (Changes α) :=
  c.sums.foldlM (fun (sum : Changes α) (key, v) => do
    let m ← checkedMatrix v
    sum.accumulate key (.matrix (← lift (m.mapM f.apply)))) {}

def add (c : Changes α) (entries : List (Value α × Value α)) : Work α (Changes α) :=
  (c.sums ++ entries).foldlM (fun (sum : Changes α) (key, v) => sum.accumulate key v) {}

end Changes

def gradientsOf (v : Value α) : Work α (Nat × Changes α) := do
  match ← meant? v with
  | some (id, .gradients g) => return (id, g)
  | _ => missing

/-- The number of examples of changes, counted from then on. -/
def exampleCount (id : Nat) : Work α (Datum α) := do
  let c := (← state).gradientsAt id
  match c.figures.get? "n" with
  | some d => return d
  | none =>
    replace id (.gradients { c with figures := c.figures.put "n" (.number 0) })
    return .number 0

/-- Fits a change to its parameter: the mean over examples, or divided by them. -/
def fitChange (id : Nat) (key v : Value α) : Work α Unit := do
  let (functor, arity) ← lift key.pair
  let fitted : Value α ← if arity.whole? = some 1 then do
      pure (.matrix (← lift (← checkedMatrix v).mean))
    else do
      let share ← lift (Gradients.share (← exampleCount id))
      pure (.ofOperand (← lift (v.operand.scaled (.real share))))
  replace id (.gradients (((← state).gradientsAt id).put (.tuple [functor, arity]) fitted))

def fitChanges (id : Nat) : Work α Unit := do
  let c := (← state).gradientsAt id
  if !c.fitted then
    for (key, v) in c.sums do fitChange id key v
    replace id (.gradients { (← state).gradientsAt id with fitted := true })

end BeliefLogic.Workbench
