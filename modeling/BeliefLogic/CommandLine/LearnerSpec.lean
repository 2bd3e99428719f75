import BeliefLogic.CommandLine.Expression.Meaning
import BeliefLogic.Learning.Experiment

/-!
# Learners on a command line

A learner is named with its choices as an expression, which is tried out when it is used.
-/

namespace BeliefLogic

namespace Method

def named? (name : String) : Option Method :=
  [.oneMode, .batch, .stochastic, .parallel, .adaptive].find? fun m => m.title == "tensorlog." ++ name

def usesBatches : Method → Bool
  | .oneMode | .batch => false
  | .stochastic | .parallel | .adaptive => true

def isParallel : Method → Bool
  | .parallel | .adaptive => true
  | _ => false

end Method

namespace Learner

variable {α : Type} [Scalar α]

def choose (l : Learner α) (name : String) (v : Chosen α) : Except Error (Learner α) :=
  match name, v with
  | "epochs", v => .ok { l with epochs := .ofDatum v.datum }
  | "rate", v => .ok { l with rate := .ofDatum v.datum }
  | "regularizer", .regularizer r => .ok { l with regularizer := r }
  | "regularizer", v =>
    .ok (if v.isTrue then { l with regularizer := .unable v.datum.kind } else l)
  | "tracer", v => .ok (if v.isTrue then { l with tracer := .unable v.datum.kind } else l)
  | "epochTracer", v =>
    if l.method = .stochastic then .error .illTyped
    else .ok (if v.isTrue then { l with epochTracer := .unable v.datum.kind } else l)
  | "miniBatchSize", v =>
    if l.method.usesBatches then .ok { l with batchSize := .ofDatum v.datum } else .error .illTyped
  | "parallel", v =>
    match l.method.isParallel, Amount.ofDatum v.datum with
    | true, .whole n => .ok { l with workers := .whole n }
    | true, .real x => .ok { l with workers := .real x }
    | _, _ => .error .illTyped
  | _, _ => .error .illTyped

def ofChoices (method : Method) (choices : Chosen.Entries α) :
    Except Error (Learner α) :=
  choices.foldlM (fun l (name, v) =>
    match name with
    | .text name => l.choose name v
    | _ => .error .illTyped) (usual method)

end Learner

namespace Run

variable {α σ : Type} [Scalar α]

def methodNamed (scope : Chosen.Scope α) (name : String) : Run α σ Method := do
  match Chosen.ofText? scope name with
  | some (.known path) =>
    match Method.named? path with
    | some method => return method
    | none => fail .undefinedName
  | _ => fail .undefinedName

/-- The learner that is named, with its choices as written. -/
def learnerNamed (scale : α) (name : String) (choices : Option String) : Run α σ (Learner α) := do
  let scope : Chosen.Scope α := [("weightEpsilon", .number scale)]
  let method ← methodNamed scope name
  match choices with
  | none => fail .notFound
  | some written =>
    match Chosen.readAll? scope (written.length + 1) written with
    | some (.choices entries) =>
      say ("decoded learner spec to <class '" ++ method.title ++ "'> args " ++
        (Chosen.choices entries).shown)
      if method = .adaptive then warnAdaptive
      lift (Learner.ofChoices method entries)
    | _ => fail .unreadable

end Run

end BeliefLogic
