import BeliefLogic.Workbench.Changes

/-!
# Making programs

A program shares its theory with all that know it. Features become goals when it is made.
-/

namespace BeliefLogic.Workbench

open Run

variable {α : Type} [Scalar α]

/-- Moves the features of a rule to its body, which is shared. -/
def expandRule (program rule : Nat) : Work α Nat := do
  let b : Bench α ← state
  match b.things[rule]?, b.ruleAt? rule with
  | some (.rule head body _ _ _), some (c, _) =>
    let (goals, use) ← lift c.rule.additions
    let ranged := c.generator.getD []
    let added := goals.map fun g => (ranged.find? (·.goal == g)).getD (.ofGoal g)
    replace body (.collection (.list ((c.body ++ added).map .goal)))
    onModel program (noteUse use)
    keep (.rule head body none none false)
  | _, _ => return rule

def refuseRule (rule : Nat) : Work α Nat := do
  if let some (c, _) := (← state).ruleAt? rule then refuseFeatures c.rule
  return rule

/-- Makes the rules of a program. A relation at which this fails is named. -/
def prepareTheory (program theory : Nat) (features : Bool) : Work α Unit := do
  if features then onModel program (Run.updateFeatures id)
  for (key, group) in (← state).groupsAt theory do
    let rules := (← state).ruleNumbers group
    let mapped ← tryCatch (rules.mapM (if features then expandRule program else refuseRule)) fun e => do
      say ("Trouble mapping rule " ++ key ++ ":")
      throw e
    let mapped ← keepGroup mapped
    if let .theory dialect groups ← thingAt theory then
      replace theory (.theory dialect (groups.map fun g => if g.1 = key then (key, mapped) else g))

def keepProgram (features : Bool) (theory : Nat) (database : Option Nat) (plugins : Plugins)
    (weights : Option (Operand α)) : Work α Nat := do
  let p := Program.ofTheory (← settings) ((← state).theoryAt theory) plugins
  let id ← keep (.program p theory (← keep (.plans {})) database)
  note id depthNote (.ofDatum ((← settings).chosen "program.max_depth"))
  note id normalizationNote (.ofDatum ((← settings).chosen "program.normalize"))
  prepareTheory id theory features
  if weights.isSome then onModel id (Run.setRuleWeights weights (.real 1) none)
  return id

end BeliefLogic.Workbench
