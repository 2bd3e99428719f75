import BeliefLogic.Plan.Evaluation

/-!
# Inputs of plans

A number can stand for an input that is only multiplied.
-/

namespace BeliefLogic

/-- How an input is used. -/
inductive InputUse where
  | multiplied
  | inspected
  deriving DecidableEq, Repr

def Action.usesOf (x : String) : Action → List InputUse
  | .preimage _ | .vector _ | .oneHot _ _ | .plugin _ _ => []
  | .product source _ _ => if source == x then [.multiplied] else []
  | .hadamard left right | .weighted left right =>
    if left == x || right == x then [.inspected] else []

mutual

def Plan.inputUses : Plan → List InputUse
  | .null _ _ => [.inspected]
  | .log _ p | .softmax _ p => p.inputUses
  | .sum _ ps => Plan.inputUsesAll ps
  | .sequence _ xs _ ss _ => Step.usesAll xs ss

def Plan.inputUsesAll : List Plan → List InputUse
  | [] => []
  | p :: ps => p.inputUses ++ Plan.inputUsesAll ps

def Step.usesOf (xs : List String) : Step → List InputUse
  | .act _ a => xs.flatMap a.usesOf
  | .call _ x _ _ p => if xs.contains x then p.inputUses else []

def Step.usesAll (xs : List String) : List Step → List InputUse
  | [] => []
  | s :: ss => Step.usesOf xs s ++ Step.usesAll xs ss

end

namespace Plan

variable {α : Type} [Scalar α]

/-- The matrix of an input. The first use that does not fit decides the error. -/
def inputRows (p : Plan) (careful : Bool) (db : Database α) (x : Operand α) :
    Except Error (Matrix α) := do
  let type := (p.inputTypes.getD []).headD none
  let size ← match db.dim type with
    | .ok n => pure n
    | .error _ => pure 0
  match x, p.inputUses with
  | .matrix m, _ => return m
  | x, .inspected :: _ => x.inspected careful "shape"
  | x, uses =>
    let rows ← if uses.isEmpty then pure default else x.scaling size
    if uses.contains .inspected then x.inspected careful "shape" else return rows

end Plan

end BeliefLogic
