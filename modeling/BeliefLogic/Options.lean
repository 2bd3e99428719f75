import BeliefLogic.Settings

/-!
# Options

Every choice of a run can be made by name. Names come in groups, and most have a line of help.
-/

namespace BeliefLogic

/-- An option: name, help if listed, default, and the choice it stands for. -/
structure Choice (α : Type) where
  name : String
  help : Option String
  standard : Option (Datum α)
  set : Datum α → Settings α → Settings α

namespace Choice

variable {α : Type} [Scalar α]

def switch (name : String) (help : Option String) (standard : Bool)
    (set : Bool → Settings α → Settings α) : Choice α :=
  ⟨name, help, some (.truth standard), fun d s => set d.isTrue s⟩

def count (name : String) (help : Option String) (standard : Int)
    (set : Datum α → Settings α → Settings α) : Choice α :=
  ⟨name, help, some (.integer standard), set⟩

def idle (name help : String) (standard : Option (Datum α)) : Choice α :=
  ⟨name, some help, standard, fun _ s => s⟩

/-- The dialect with a name; everything but one text stands for operators. -/
def dialectOf : Datum α → Dialect
  | .text "proppr" => .clause
  | _ => .operator

def groups : List (String × String × List (Choice α)) := [
  ("bpcompiler", "config for tensorlog.bpcompiler", [
    switch "produce_ops" "Turn off to debug analysis" true
      fun b s => { s with emitOperations := b },
    switch "strict" "Check that a clause fits all assumptions" true
      fun b s => { s with strictRules := b },
    switch "trace" "Print debug info during BP" false
      fun b s => { s with traceAnalysis := b }]),
  ("dataset", "config for tensorlog.dataset", [
    switch "normalize_outputs" "In .exam files, l1-normalize the weights of valid outputs"
      true fun b s => { s with normalizeOutputs := b }]),
  ("debug", "config for tensorlog.debug", [
    idle "fontsize" "Weight of font, eg 'bold'" (some .nothing),
    switch "sortByValue"
      "In displaying message values, sort entries by weight if true, by name if false."
      true fun b s => { s with sortByWeight := b }]),
  ("funs", "config for tensorlog.funs", [
    switch "long_trace" "Print output of functions during eval - only for small tasks"
      false fun b s => { s with traceValues := b },
    switch "trace" "Print debug info during function eval" false
      fun b s => { s with traceFunctions := b }]),
  ("learn", "config for tensorlog.learn", [
    count "maxGradient" none 100 fun d s => { s with greatestGradient := d },
    count "minGradient" "Clip gradients larger than this to maxGradient" (-100)
      fun d s => { s with leastGradient := d }]),
  ("matrixdb", "config for tensorlog.matrixdb", [
    switch "allow_weighted_tuples" "Allow last column of cfacts file to be a weight for the fact"
      true fun b s => { s with weightedTuples := b },
    switch "default_to_typed_schema" "If true use TypedSchema() as default schema in MatrixDB"
      false fun b s => { s with typedByDefault := b },
    switch "ignore_types" "Ignore type declarations, even if they are present" false
      fun b s => { s with ignoreTypes := b }]),
  ("mutil", "config for tensorlog.mutil", [
    switch "careful" "execute checks for matrix type and NANs" true
      fun b s => { s with careful := b },
    switch "densifyMean" "use dense matrices here" true
      fun b s => { s with denseMean := b },
    switch "densifyWeightByRowSum" "use dense matrices here - did not speed up test cases"
      false fun b s => { s with denseWeighting := b },
    idle "maxExpand"
      "B, where you can can use B + KM the sparse-matrix memory M when densifying matrices" none,
    count "maxExpandFactor" none 3 fun d s => { s with denseFactor := d },
    count "maxExpandIntercept" none 10000 fun d s => { s with denseIntercept := d },
    switch "warnAboutDensity" "warn when you fail to densify a matrix" false
      fun b s => { s with reportDensity := b }]),
  ("ops", "config for tensorlog.ops", [
    switch "check_nan" none true fun b s => { s with checkUndefined := b },
    idle "check_overflow" "Check if output of each op is nan." none,
    count "long_trace" "Print output of messages with < n nonzeros - only for small tasks" 0
      fun d s => { s with tracedEntries := .below d, traceChanges := d.isTrue },
    switch "max_trace" "Print max value of functions after op" false
      fun b s => { s with traceMaxima := b },
    count "pprintMaxdepth" "Controls op.pprint() output" 0
      fun d s => { s with shownDepth := .ofDatum d },
    switch "trace" "Print debug info during op execution" false
      fun b s => { s with traceOperations := b }]),
  ("parser", "", [
    ⟨"syntax", none, some (.text "proppr"), fun d s => { s with dialect := dialectOf d }⟩]),
  ("program", "conf for tensorlog.program", [
    count "max_depth" "Maximum depth of program recursion" 10
      fun d s => { s with maxDepth := .ofDatum d },
    ⟨"normalize", "Default normalization, set to 'softmax', 'log+softmax', or 'none'",
      some (.text "softmax"), fun d s => { s with normalization := .ofDatum d }⟩]),
  ("xcomp", "config for tensorlog.xcomp", [
    switch "ignoreTypeCheck" "allow unknown types in a database with types"
      false fun b s => { s with allowUnknownTypes := b },
    switch "reparameterizeMatrices"
      "pass parameter matrices through a softplus to make keep them positive"
      true fun b s => { s with reparameterize := b }])]

def find? (name : String) : Option (Choice α) :=
  (groups.flatMap fun (group, _, choices) =>
    choices.map fun (c : Choice α) => (group ++ "." ++ c.name, c)).find? (·.1 == name) |>.map (·.2)

def column (s : String) : String := s ++ String.ofList (List.replicate (40 - s.length) ' ')

def line? (s : Settings α) (group : String) (c : Choice α) : Option String := do
  let help ← c.help
  let d ← (s.given.get? (group ++ "." ++ c.name)).orElse fun _ => c.standard
  return column ("| " ++ c.name ++ ": " ++ d.shown) ++ " " ++ help

def listing (s : Settings α) : List String :=
  groups.flatMap fun (group, help, choices) =>
    if help.isEmpty then []
    else (column (group ++ ":") ++ " " ++ help) :: choices.filterMap (line? s group)

end Choice

def Settings.chosen {α : Type} [Scalar α] (s : Settings α) (name : String) : Datum α :=
  ((s.given.get? name).orElse fun _ => (Choice.find? name).bind (·.standard)).getD .nothing

def Settings.assign {α : Type} [Scalar α] (s : Settings α) (name : String) (d : Datum α) :
    Settings α :=
  match Choice.find? name with
  | some c => { c.set d s with given := s.given.put name d }
  | none => s

end BeliefLogic
