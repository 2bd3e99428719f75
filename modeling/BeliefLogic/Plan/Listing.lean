import BeliefLogic.Plan.Basic

/-!
# Listings of plans

A listing has a line for each node, and follows calls up to a depth.
-/

namespace BeliefLogic

open Text

def numbered (n : Nat) (s : String) : String :=
  let t := natural n
  t ++ String.ofList (List.replicate (2 - t.length) ' ') ++ " " ++ s

def typedName (name : String) : Option String → String
  | some type => name ++ "(" ++ type ++ ")"
  | none => name

namespace Action

def text : Action → String
  | .preimage mode => "M_[" ++ mode.text ++ "]"
  | .vector mode => "V_[" ++ mode.text ++ "]"
  | .oneHot _ constant => "U_[" ++ constant ++ "]"
  | .product source mode transpose =>
    source ++ " * M_[" ++ mode.text ++ "]" ++ (if transpose then ".T" else "")
  | .plugin sources mode =>
    "CallPlugin\x7b" ++ mode.text ++ "\x7d(" ++ ",".intercalate sources ++ ")"
  | .hadamard left right => left ++ " o " ++ right
  | .weighted weight row => row ++ " * " ++ weight ++ ".sum()"

def shown (target : String) : Action → String
  | .preimage mode => "AssignPreimageToVar(" ++ target ++ "," ++ mode.text ++ ")"
  | .vector mode => "AssignVectorToVar(" ++ target ++ "," ++ mode.text ++ ")"
  | .oneHot _ constant => "AssignOnehotToVar(" ++ target ++ "," ++ constant ++ ")"
  | .product source mode transpose =>
    "VecMatMulOp(" ++ quoted target ++ "," ++ quoted source ++ "," ++ mode.text ++ "," ++
      (if transpose then "True" else "False") ++ ")"
  | .plugin sources mode =>
    "BuiltInOp(" ++ quoted target ++ "," ++ quoted (",".intercalate sources) ++ "," ++
      mode.text ++ ")"
  | .hadamard left right =>
    "ComponentwiseVecMulOp(" ++ quoted target ++ "," ++ quoted left ++ "," ++ right ++ ")"
  | .weighted weight row =>
    "WeightedVec(" ++ target ++ "," ++ weight ++ ".sum()," ++ row ++ ")"

end Action

namespace Step

def value : Step → String
  | .act _ a => a.text
  | .call _ source mode depth _ =>
    "f_[" ++ mode.text ++ "," ++ Text.integer depth ++ "](" ++ source ++ ")"

def summary (s : Step) : String := typedName s.target s.info.type ++ " = " ++ s.value

def comment (s : Step) : String :=
  match s.info.route with
  | some (source, target) =>
    if source.isEmpty || target.isEmpty then "" else source ++ " -> " ++ target
  | none => ""

def shown : Step → String
  | .act i a => a.shown i.target
  | .call i source mode depth _ =>
    "DefinedPredOp(" ++ quoted i.target ++ "," ++ quoted source ++ "," ++ mode.text ++
      "," ++ Text.integer depth ++ ")"

end Step

namespace Plan

def summary : Plan → String
  | .null i _ => typedName "NullFunction" i.outputType
  | .log i _ => typedName "LogFunction" i.outputType
  | .softmax i _ => typedName "SoftMaxFunction" i.outputType
  | .sum i _ => typedName "SumFunction" i.outputType
  | .sequence i inputs output _ _ =>
    let types := i.inputTypes.getD (inputs.map fun _ => none)
    let args := (inputs.zip types).map fun (x, t) => typedName x (t.filter (· ≠ ""))
    typedName output i.outputType ++ " = OpSeqFunction(" ++ ",".intercalate args ++ ")"

def comment (d : Dialect) : Plan → String
  | .sequence _ _ _ _ r => r.text d
  | _ => ""

def heading (id : Option Nat) (summary comment : String) : Except Error String :=
  match id with
  | some n =>
    .ok (numbered n summary ++ (if comment.isEmpty then "" else " # " ++ comment))
  | none => .error .missingPart

end Plan

mutual

def Plan.lines (d : Dialect) (shown : Depth) : Plan → Int → Except Error (List String)
  | .null i m, _ => return [← Plan.heading i.id (Plan.null i m).summary ""]
  | .log i p, depth => do
    let top ← Plan.heading i.id (Plan.log i p).summary ""
    return top :: (← Plan.lines d shown p depth).map ("| " ++ ·)
  | .softmax i p, depth => do
    let top ← Plan.heading i.id (Plan.softmax i p).summary ""
    return top :: (← Plan.lines d shown p depth).map ("| " ++ ·)
  | .sum i ps, depth => do
    let top ← Plan.heading i.id (Plan.sum i ps).summary ""
    return top :: (← Plan.linesAll d shown ps depth).map ("| " ++ ·)
  | .sequence i xs y ss r, depth => do
    let top ← Plan.heading i.id (Plan.sequence i xs y ss r).summary (r.text d)
    return top :: (← Step.linesAll d shown ss depth).map ("| " ++ ·)

def Plan.linesAll (d : Dialect) (shown : Depth) : List Plan → Int → Except Error (List String)
  | [], _ => .ok []
  | p :: ps, depth => return (← Plan.lines d shown p depth) ++ (← Plan.linesAll d shown ps depth)

def Step.lines (d : Dialect) (shown : Depth) : Step → Int → Except Error (List String)
  | .act i a, _ => return [← Plan.heading i.id (Step.act i a).summary (Step.act i a).comment]
  | .call i x m k p, depth => do
    let s := Step.call i x m k p
    let top ← Plan.heading i.id s.summary s.comment
    if ← shown.isExceededBy depth then
      return [top, String.join (List.replicate (depth + 1).toNat "| ") ++ "..."]
    else return top :: (← Plan.lines d shown p (depth + 1))

def Step.linesAll (d : Dialect) (shown : Depth) : List Step → Int → Except Error (List String)
  | [], _ => .ok []
  | s :: ss, depth => return (← Step.lines d shown s depth) ++ (← Step.linesAll d shown ss depth)

end

mutual

def Plan.shown : Plan → Except Error String
  | .null _ _ => .ok "NullFunction()"
  | .log _ p => return "LogFunction(" ++ (← Plan.shown p) ++ ")"
  | .softmax _ p => return "SoftmaxFunction(" ++ (← Plan.shown p) ++ ")"
  | .sum _ ps => return "SumFunction(" ++ bracketed (← Plan.shownAll ps) ++ ")"
  | .sequence _ inputs output steps _ =>
    match steps.head?, steps.getLast? with
    | some first, some last =>
      .ok ("OpSeqFunction(" ++ quotedList inputs ++ "," ++ quoted output ++ "," ++
        quoted ("[" ++ first.shown ++ ",...," ++ last.shown ++ "]") ++ ")")
    | _, _ => .error .outOfRange

def Plan.shownAll : List Plan → Except Error (List String)
  | [] => .ok []
  | p :: ps => return (← Plan.shown p) :: (← Plan.shownAll ps)

end

namespace Run

variable {α σ : Type}

/-- The listing of a plan, from a depth on. -/
def planLinesFrom (p : Plan) (depth : Int) : Run α σ (List String) := do
  let s ← settings
  lift (p.lines s.dialect s.shownDepth depth)

def planLines (p : Plan) : Run α σ (List String) := planLinesFrom p 0

/-- The listing of a step, from a depth on. -/
def stepLines (s : Step) (depth : Int) : Run α σ (List String) := do
  let choice ← settings
  lift (s.lines choice.dialect choice.shownDepth depth)

end Run

end BeliefLogic
