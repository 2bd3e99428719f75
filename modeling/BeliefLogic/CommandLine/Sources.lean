import BeliefLogic.CommandLine.Preferences
import BeliefLogic.Examples.Reader
import BeliefLogic.Program.Query

/-!
# Sources on a command line

The ending of a name tells what it is; `copy|source` names a copy kept in step with its source.
-/

namespace BeliefLogic

open Text

/-- A program, its database, and what the rest of a command line asks for. -/
structure Arguments (α : Type) where
  flags : Dictionary String (Datum α)
  model : Model α
  training : Option (Examples α) := none
  testing : Option (Examples α) := none
  rest : List (Datum α) := []

structure ExtraFlags where
  consumer : Option String := none
  flags : List Flag := []
  usage : List String := []

def isCached (source : String) : Bool := Text.contains "|" source

def cachedSource (copy source : String) : String := copy ++ "|" ++ source

def cachedParts (source : String) : List String := fields '|' source

namespace Run

variable {α σ : Type} [Scalar α]

def copyAndSource (text : String) : Run α σ (String × String) :=
  match cachedParts text with
  | [copy, source] => pure (copy, source)
  | _ => fail .malformed

/-- The database that a text names, over a schema for facts. -/
def databaseAt (source : String) : Run α σ (Database α) := do
  let schema := Database.initialSchema (← settings)
  let db ←
    if isCached source then do
      let (copy, facts) ← copyAndSource source
      cachedFacts copy facts schema
    else if endsWith ".db" source then loadDatabase source
    else if endsWith ".cfacts" source then loadFacts source schema
    else refuse (.databaseSource source)
  checkTyping db.schema db.relations.keys false
  return db

def holdsQueries (source : String) : Run α σ Bool := do
  let queries := endsWith ".examples" source
  require (queries || endsWith ".exam" source) .exampleSource
  return queries

def examplesAt (db : Database α) (source : String) : Run α σ (Examples α) := do
  if isCached source then
    let (copy, file) ← copyAndSource source
    cachedExamples copy db file (← holdsQueries file)
  else if endsWith ".dset" source then restoreExamples source
  else loadExamples db source (← holdsQueries source)

def modelOf (features : Bool) (theory : Theory) (db : Option (Database α)) :
    Run α σ (Model α) := do
  let program := Program.ofTheory (← settings) theory {}
  return (← within { program, database := db } (prepare features)).2

def modelAt (features : Bool) (files : String) (db : Option (Database α)) : Run α σ (Model α) := do
  modelOf features (← readRuleFiles files) db

def sourceFlags : List Flag :=
  [⟨"db", true⟩, ⟨"proppr", false⟩, ⟨"prog", true⟩, ⟨"trainData", true⟩, ⟨"testData", true⟩,
    ⟨"help", false⟩, ⟨"logging", true⟩]

def banner : String :=
  "Tensorlog v1.3.6 (C) William W. Cohen and Carnegie Mellon University, 2016-2017"

def sourceUsage : List String :=
  ["options:",
    " --db file.db              - file contains a serialized MatrixDB",
    " --db file1.cfacts1:...    - files are parsable with MatrixDB.loadFile()",
    " --prog file.ppr           - file is parsable as tensorlog rules",
    " --trainData file.exam     - optional: file is parsable with Dataset.loadExamples",
    " --trainData file.dset     - optional: file is a serialized Dataset",
    " --testData file.exam      - optional:",
    " --proppr                  - if present, assume the file has proppr features with",
    "                             every rule: \x7bruleid\x7d, or \x7ball(F): p(X,...),q(...,F)\x7d",
    " --logging level           - level is warn, debug, error, or info",
    "",
    "Notes: for --db, --trainData, and --testData, you are allowed to specify either a",
    "serialized, cached object (like 'foo.db') or a human-readable object that can be",
    "serialized (like 'foo.cfacts'). In this case you can also write 'foo.db|foo.cfacts'",
    "and the appropriate uncache routine will be used."]

def showUsage (extra : List String) : Run α σ Unit :=
  (sourceUsage ++ ["\n".intercalate extra]).forM say

def textual (d : Datum α) : Run α σ String :=
  match Argument.text? d with
  | some s => pure s
  | none => fail .missingPart

/-- The options and what follows them, a tool's own options last. -/
def readFlags (extra : ExtraFlags) (args : List (Datum α)) :
    Run α σ (Dictionary String (Datum α) × List (Datum α)) := do
  let (flags, rest) ← lift (Flag.read [⟨"x", false⟩] sourceFlags args)
  match extra.consumer, rest with
  | some consumer, separator :: rest =>
    let separator ← textual separator
    if !Text.startsWith "+" separator then
      warn ("command-line options for " ++ consumer ++ " should follow a +++ argument")
    let (more, rest) ← lift (Flag.read [⟨"x", false⟩] extra.flags rest)
    return (.ofList (flags ++ more), rest)
  | _, rest => return (.ofList flags, rest)

def readArguments (extra : ExtraFlags) (args : List (Datum α)) : Run α σ (Arguments α) := do
  say banner
  let (flags, rest) ← tryCatch (readFlags extra args) fun e => do
    if let .badOption := e then say "bad option: use \"--help\" to get help"
    fail e
  if flags.contains "--help" then
    showUsage extra.usage
    fail (.exit 0)
  match flags.get? "--db", flags.get? "--prog" with
  | some facts, some rules =>
    let db ← databaseAt (← textual facts)
    let model ← modelAt (flags.contains "--proppr") (← textual rules) (some db)
    let examples (name : String) : Run α σ (Option (Examples α)) :=
      (flags.get? name).mapM fun source => do examplesAt db (← textual source)
    let training ← examples "--trainData"
    let testing ← examples "--testData"
    return { flags, model, training, testing, rest }
  | _, _ =>
    showUsage extra.usage
    refuse .missingSources

end Run

end BeliefLogic
