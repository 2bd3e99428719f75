import BeliefLogic.Plan.Basic

/-!
# Shared plans

A plan that several others call is kept once. A part of a plan is found by its path from the root.
-/

namespace BeliefLogic

/-- A part of a plan. -/
inductive PlanPart where
  | plan (p : Plan)
  | step (s : Step)

namespace Plan

def rebody (body : Mode → Int → Plan → Plan) : Step → Step
  | .act i a => .act i a
  | .call i x m d p => .call i x m d (body m d p)

mutual

def withBodies (body : Mode → Int → Plan → Plan) : Plan → Plan
  | .null i m => .null i m
  | .log i p => .log i (withBodies body p)
  | .softmax i p => .softmax i (withBodies body p)
  | .sum i ps => .sum i (allWithBodies body ps)
  | .sequence i xs y ss r => .sequence i xs y (ss.map (rebody body)) r

def allWithBodies (body : Mode → Int → Plan → Plan) : List Plan → List Plan
  | [] => []
  | p :: ps => withBodies body p :: allWithBodies body ps

end

def parts : Plan → List PlanPart
  | .null _ _ => []
  | .log _ p | .softmax _ p => [.plan p]
  | .sum _ ps => ps.map .plan
  | .sequence _ _ _ ss _ => ss.map .step

def part? : List Nat → PlanPart → Option PlanPart
  | [], q => some q
  | k :: path, .plan p => p.parts[k]?.bind (part? path)
  | _ :: path, .step (.call _ _ _ _ p) => part? path (.plan p)
  | _ :: _, .step (.act _ _) => none

def changeAt (f : Plan → Plan) : List Nat → Plan → Plan
  | [], p => f p
  | _ :: _, .null i m => .null i m
  | _ :: path, .log i p => .log i (changeAt f path p)
  | _ :: path, .softmax i p => .softmax i (changeAt f path p)
  | k :: path, .sum i ps => .sum i (ps.modify k (changeAt f path))
  | [_], .sequence i xs y ss r => .sequence i xs y ss r
  | k :: _ :: path, .sequence i xs y ss r =>
    .sequence i xs y (ss.modify k (rebody fun _ _ => changeAt f path)) r

/-- A plan without the part at a position, if it has a list of parts. -/
def erasePart (k : Nat) : Plan → Plan
  | .sum i ps => .sum i (ps.eraseIdx k)
  | .sequence i xs y ss r => .sequence i xs y (ss.eraseIdx k) r
  | p => p

end Plan

namespace PlanTable

/-- The body of a call as a table keeps it, followed as far as asked. -/
def current (t : PlanTable) : Nat → Mode → Int → Plan → Plan
  | 0, _, _, p => p
  | n + 1, m, d, p =>
    let kept := if p.info.copied then p else (t.get? (m, d)).getD p
    kept.withBodies (current t n)

def refresh (t : PlanTable) (p : Plan) : Plan := p.withBodies (t.current (t.size + 1))

def settled (t : PlanTable) : PlanTable := t.mapValues t.refresh

end PlanTable

end BeliefLogic
