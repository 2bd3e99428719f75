import BeliefLogic.Studies.Conversions
import BeliefLogic.Studies.Distances
import BeliefLogic.Studies.MovieTrials
import BeliefLogic.Studies.Sketches
import BeliefLogic.Studies.Smokers
import BeliefLogic.Studies.Speed
import BeliefLogic.Studies.Timings

/-!
# Subjects

The studies by subject: what each one does as a whole, and which tasks of it can be performed one by
one.
-/

namespace BeliefLogic.Studies

open Workbench

inductive Subject where
  | cornerGrid | blockGrid | classGrid | torusGrid | distances | plainEdges | pathQuestions
  | gridTimings | allSmokers | smokerLabels | someSmokers | people | smokerTimings | kinship | speed
  | acquisitions | movies | movieTrial | movieRules | socialGraph | sketches
  deriving DecidableEq, Repr

namespace Subject

variable {α : Type} [Scalar α]

def names : List (String × Subject) :=
  [("corner-grid", .cornerGrid), ("block-grid", .blockGrid), ("class-grid", .classGrid),
    ("torus-grid", .torusGrid), ("distances", .distances), ("plain-edges", .plainEdges),
    ("path-questions", .pathQuestions), ("grid-timings", .gridTimings),
    ("all-smokers", .allSmokers), ("smoker-labels", .smokerLabels), ("some-smokers", .someSmokers),
    ("people", .people), ("smoker-timings", .smokerTimings), ("kinship", .kinship),
    ("speed", .speed), ("acquisitions", .acquisitions), ("movies", .movies),
    ("movie-trial", .movieTrial), ("movie-rules", .movieRules), ("social-graph", .socialGraph),
    ("sketches", .sketches)]

/-- Whether a study could draw its grids. -/
def couldDraw : Subject → Bool
  | .cornerGrid | .classGrid | .torusGrid | .distances => true
  | _ => false

def greet (s : Subject) : Studying α Unit := if s.couldDraw then Run.say "no networkx" else pure ()

def run : Subject → Studying α Unit
  | .cornerGrid => runCornerGrid
  | .blockGrid => runBlockGrid
  | .distances => runDistanceLine
  | .plainEdges => convertInput plainEdge
  | .pathQuestions => convertInput pathQuestion
  | .gridTimings | .smokerTimings => summarizeTotals
  | .allSmokers => runAllSmokers
  | .smokerLabels => convertLabels
  | .someSmokers => runSomeSmokers
  | .people => askPeople
  | .kinship => runKinship
  | .speed => runSpeed
  | .acquisitions => runAcquisitions
  | .movies => convertMovies
  | .movieTrial => runMovies
  | .socialGraph => convertSocialGraph
  | .sketches => showSketch
  | .classGrid | .torusGrid | .movieRules => throw .unsupported

def tasks : Subject → List (Args α → Studying α (Value α))
  | .cornerGrid =>
    [.cellName, .writeEdges, .writePaths, .readRequest, .writeAll, .time, .measure,
      .compareFormulas, .run].map fun (t : GridTask) args => t.performCorner args
  | .blockGrid =>
    [.cellName, .writeEdges, .writePaths, .readRequest, .writeAll, .time, .measure, .run].map
      fun (t : GridTask) args => t.performBlock args
  | .classGrid => [.cellName, .writeAll].map fun (t : GridTask) args => t.performClass args
  | .torusGrid => [.cellName, .writeAll].map fun (t : GridTask) args => t.performTorus args
  | .distances =>
    [.cellName, .writeGrid, .writeShares, .loadShares, .run].map
      fun (t : DistanceTask) args => t.perform args
  | .gridTimings | .smokerTimings =>
    [fun _ => do
      summarizeQueries
      return .nothing]
  | .allSmokers => [.prepare, .time].map fun (t : SmokerTask) _ => t.performAll
  | .someSmokers => [.prepare, .time].map fun (t : SmokerTask) args => t.performSome args
  | .kinship =>
    [.load, .run, .measure, .compareFormulas].map fun (t : KinshipTask) args => t.perform args
  | .speed =>
    [.load, .compile, .answerTogether, .answerInTurn, .queries, .run, .compareFormulas].map
      fun (t : SpeedTask) args => t.perform args
  | .acquisitions => [.prepare, .measure].map fun (t : AcquisitionTask) _ => t.perform
  | .movies =>
    [.tokens, .lexicon, .unnumbered, .load, .write, .examples, .questions, .check].map
      fun (t : MovieTask) args => t.perform args
  | .movieTrial => [.prepare, .measure].map fun (t : MovieTrialTask) args => t.perform args
  | .movieRules => [.options, .rules].map fun (t : MovieRuleTask) args => t.perform args
  | .sketches =>
    [.embedding, .sample, .display, .decodeSketched, .decode, .entityRow, .run].map
      fun (t : SketchTask) args => t.perform args
  | .plainEdges | .pathQuestions | .smokerLabels | .people | .socialGraph => []

end Subject

end BeliefLogic.Studies
