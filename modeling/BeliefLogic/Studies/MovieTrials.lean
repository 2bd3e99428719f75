import BeliefLogic.Studies.Acquisitions
import BeliefLogic.Studies.Movies

/-!
# Answering questions about movies

A program with features is trained to answer questions about movies.
-/

namespace BeliefLogic.Studies

open Workbench Run

variable {α : Type} [Scalar α]

def loadMovieTrial (n : Int) : Studying α Trainee := do
  let stem (kind : String) : String := kind ++ "-" ++ Text.integer n
  let source (kind copy written : String) : String :=
    "tmp-cache/" ++ stem kind ++ copy ++ "|inputs/" ++ stem kind ++ written
  let db ← loadSource (source "train" ".db" ".cfacts")
  let training ← loadExampleSource db (source "train" ".dset" ".exam")
  let testing ← loadExampleSource db (source "test" ".dset" ".exam")
  let program ← loadProgram true "theory.ppr" (some db)
  onBench (onModel program (Run.setFeatureWeights (.whole 1)))
  return { program, training, testing }

def movieSettings (n : Value α) : Studying α (List (String × Value α)) := do
  let t ← loadMovieTrial (← lift (whole n))
  let l : Learner α :=
    { Learner.usual .parallel with epochs := .whole 10, regularizer := .shrink (.number (decimal 1 2)) }
  let learner ← onBench (keepLearner l t.program)
  return [("prog", .thing t.program), ("trainData", .thing t.training),
    ("testData", .thing t.testing), ("targetMode", .text "answer/io"),
    ("savedModel", .text "learned-model.db"), ("learner", .thing learner)]

/-- Trains and tests. From then on the last column of facts is no weight. -/
def measureMovies (n : Value α) : Studying α (Value α) := do
  ensureDirectory "tmp-cache"
  modify fun (w, s) => ({ w with settings := { w.settings with weightedTuples := false } }, s)
  experiment (← movieSettings n)

def movieCount : Value α := .integer 250

def runMovies : Studying α Unit := do
  sayResult (← measureMovies movieCount)
  let _ ← movieSettings movieCount

inductive MovieTrialTask where
  | prepare
  | measure
  deriving DecidableEq, Repr

def MovieTrialTask.perform (args : Args α) : MovieTrialTask → Studying α (Value α)
  | .prepare => do
    let settings ← movieSettings (← argument args 0)
    return .dictionary (settings.map fun (k, v) => (.text k, v))
  | .measure => do measureMovies (← argumentD args 0 movieCount)

def askedRelations : List String := Text.words
  "directed_by has_genre has_imdb_rating has_imdb_votes has_tags release_year starred_actors
  written_by in_language"

def movieOptions : Preferences α := .ofList [
  ("action", .text "train"), ("batch_size", .integer 100), ("rate", .number (decimal 1 1)),
  ("epochs", .integer 5), ("num", .integer 1000), ("model", .text "learned-model.db")]

def readMovieOptions (args : List (Datum α)) : Studying α (Preferences α) := do
  let (_, options) ← Run.within movieOptions (setPreferences args)
  for (name, v) in options.entries.mergeSort fun a b => a.1 ≤ b.1 do
    sayAll ["option:", name, "set to", v.printed]
  return options

/-- A rule from the movie or entity of a question to the other, by words. -/
def relationRule (d : Dialect) (relation weights mentioned answer : String) :
    Except Error (Clause α) :=
  let goal (functor : String) (args : List String) : Clause α :=
    .ofRelation functor (args.map .text)
  let features := (goal weights ["F"]).ranging (goal Catalogue.wordRelation ["Question", "F"])
  Clause.derived d (goal "answer" ["Question", answer])
    ((goal "mentions_entity" ["Question", mentioned]).conj
      ((goal relation ["Movie", "Entity"]).weighed features))

def relationRules (d : Dialect) (relations : List String) : Except Error (List (Clause α)) := do
  let back ← relations.mapM fun r => relationRule d r ("wBack_" ++ r) "Entity" "Movie"
  let fore ← relations.mapM fun r => relationRule d r ("wFore_" ++ r) "Movie" "Entity"
  return back ++ fore

def makeMovieRules : Studying α Nat := do
  let relations ← (← chosenRelations askedRelations).mapM fun r => lift r
  let clauses : List (Clause α) ←
    lift (relationRules (← settings).dialect relations)
  let schema ← onBench (keep (.schema .emptyTyped))
  let rules ← onBench (keep (.theory .operator []))
  for c in clauses do onBench (do addRule rules (← keepRule c true))
  Run.print ((← onBench state).theoryAt rules).listing
  onBench (keep (.builder schema rules none))

inductive MovieRuleTask where
  | options
  | rules
  deriving DecidableEq, Repr

def MovieRuleTask.perform (args : Args α) : MovieRuleTask → Studying α (Value α)
  | .options => do
    let line ← argument args 0
    let options ← readMovieOptions (← onBench (argumentLine line))
    return .thing (← onBench (keep (.preferences options)))
  | .rules => return .thing (← makeMovieRules)

end BeliefLogic.Studies
