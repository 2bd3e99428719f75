import BeliefLogic.Studies.Basic
import BeliefLogic.Workbench.Lexicons

/-!
# Movies

Numbered lines about movies are written as facts and examples.
-/

namespace BeliefLogic.Studies

open Workbench Run Text

variable {α : Type} [Scalar α]

def movieRelations : List String := Text.words
  "directed_by has_genre has_imdb_rating has_imdb_votes has_plot has_tags release_year
  starred_actors written_by in_language"

def misnamed : List (String × String) := [
  ("Dance , Girl", "Dance , Girl , Dance"),
  ("Reuben", "Reuben , Reuben"),
  ("Rachel", "Rachel , Rachel"),
  ("Walking", "Walking, Walking"),
  ("It's a Mad , Mad , Mad World", "It's a Mad , Mad , Mad , Mad , World"),
  ("99 and 44/100% Dead", "99 and 44/100 Dead"),
  ("King of the Monsters!", "Godzilla, King of the Monsters!"),
  ("Good Morning , Miss Dove", "Good Morning, Miss Dove"),
  ("Fight , Zatoichi", "Fight , Zatoichi , Fight"),
  ("Corrina", "Corrina , Corrina"),
  ("Olivier , Olivier", "Olivier"),
  ("Puff , Puff , Pass", "Puff , Pass"),
  ("Run , Man , Run", "Run , Man"),
  ("Oh , God! , You Devil", "God! , You Devil"),
  ("My Love , Arise", "Arise , My Love"),
  ("You're a Good Man , Charlie Brown", "You're a Good Man")]

/-- The relations chosen. One that is no text fails where it is looked for. -/
def chosenRelations (usual : List String) : Studying α (List (Except Error String)) := do
  let v ← lift (← chosen .relations (some (.ofTexts usual)))
  return (listed v).map fun relation => do (← relation).textual

def loadMovies : Studying α Catalogue := do
  let lines ← fileLines "movieqa/knowledge_source/wiki_entities/wiki_entities_kb.txt"
  let relations ← chosenRelations movieRelations
  let c ← lift (Catalogue.ofLines relations lines)
  let relations ← relations.mapM fun r => lift r
  say "loaded kb"
  return c.addAliases relations misnamed

def writeCatalogue (c : Catalogue) (path subjectType : String) (further : List String) :
    Studying α Unit :=
  putText path (String.join (c.lines subjectType further))

abbrev Question := String × List String

def firstOf {β : Type} (n : Int) (xs : List β) : List β :=
  if 0 ≤ n then xs.take n.toNat else xs.take (xs.length - n.natAbs)

def limited (limit : Value α) (questions : Value α) : Except Error (List (Except Error (Value α))) := do
  match limit with
  | .nothing => return listed questions
  | limit =>
    let items ← questions.items
    let isShort ← match limit.amount with
      | .whole n => pure (decide (n < items.length))
      | .real x => pure (decide (x < Scalar.ofNat items.length))
      | .written _ | .other _ => throw .illTyped
    if !isShort then return items.map .ok
    match limit.amount, questions with
    | .whole _, .dictionary _ => throw .illTyped
    | .whole n, _ => return (firstOf n items).map .ok
    | _, _ => throw .illTyped

def questionName (stem : String) (i : Nat) : String := "q" ++ stem ++ padded 4 i

def describeQuestion (l : Lexicon) (name question : String) (c : Catalogue) : Catalogue :=
  let c := (l.read question false).foldl (fun c e => c.insert "mentions_entity" name e) c
  (Lexicon.tokens question).foldl (fun c w => c.insert Catalogue.wordRelation name w) c

/-- Writes a question as an example, with the facts that describe it. -/
def writeQuestion (l : Except Error Lexicon) (stem : String) (c : Catalogue)
    (item : Except Error (Value α) × Nat) : Run α String Catalogue := do
  let (question, answers) ← lift (← lift item.1).pair
  if (← lift answers.items).isEmpty then
    warn ("no answers for question " ++ question.shown)
    return c
  let name := questionName stem item.2
  let sentence ← lift question.sentence
  let c := describeQuestion (← lift l) name sentence c
  Run.emit ("# " ++ sentence ++ " " ++ answers.shown ++ "\n")
  match answers with
  | .list answers =>
    let answers ← answers.mapM fun a => lift a.textual
    Run.emit ("\t".intercalate ("answer" :: name :: answers) ++ "\n")
    return c
  | _ => throw .illTyped

/-- Writes questions as examples, and collects their facts. -/
def writeQuestions (l : Except Error Lexicon) (questions : Value α) (stem path : String)
    (limit : Value α) : Studying α Catalogue := do
  let questions ← lift (limited limit questions)
  Run.writing path false (questions.zipIdx.foldlM (writeQuestion l stem) {})

def plainQuestion (question : String) : Studying α String := do
  match question.toList.getLast? with
  | none => throw .outOfRange
  | some '?' => return String.ofList question.toList.dropLast
  | some _ =>
    warn ("weird question " ++ quoted question)
    return question

def readQuestion (l : Except Error Lexicon) (line : String) : Studying α Question := do
  let line ← lift (Catalogue.unnumbered (strip line))
  match fields '\t' line with
  | [question, answers] =>
    let question ← plainQuestion question
    return (question, (← lift l).read answers false)
  | _ => throw .malformed

def loadQuestions (stem : String) (l : Except Error Lexicon) : Studying α (List Question) := do
  let lines ← fileLines ("movieqa/questions/wiki_entities/wiki-entities_qa_" ++ stem ++ ".txt")
  let questions ← lines.mapM (readQuestion l)
  sayAll ["loaded", natural questions.length, "qas"]
  return questions

structure AnswerCheck (α : Type) where
  total : Nat := 0
  missing : Nat := 0
  found : List (Value α) := []

def checkAnswer (l : Except Error Lexicon) (question answers : Value α) (check : AnswerCheck α)
    (answer : Value α) : Studying α (AnswerCheck α) := do
  let l ← lift l
  if !answer.isKey then throw .illTyped
  let known := match answer with
    | .text a => l.names.contains a
    | _ => false
  let check := { check with total := check.total + 1 }
  if known then return check
  let d := (← settings).dialect
  sayAll ["missing " ++ answer.shown, "in", question.printed d, answers.printed d]
  let isNew := check.found.all fun v => v.shown != answer.shown
  return { check with missing := check.missing + 1,
                      found := if isNew then check.found ++ [answer] else check.found }

/-- Counts the answers and tells which are no names. -/
def checkAnswers (questions : Value α) (l : Except Error Lexicon) :
    Studying α (List (Value α)) := do
  let check ← (listed questions).foldlM (fun check item => do
    let (question, answers) ← lift (← lift item).pair
    (← lift answers.items).foldlM (checkAnswer l question answers) check) {}
  sayAll ["tot", figure (Scalar.ofNat check.total : α), "missing",
    figure (Scalar.ofNat check.missing : α)]
  return check.found

def ofQuestions (questions : List Question) : Value α :=
  .list (questions.map fun (q, answers) => .tuple [.text q, .ofTexts answers])

/-- Writes one set of questions and the facts that describe them. -/
def convertQuestions (l : Lexicon) (n : Int) (stem : String) : Studying α Unit := do
  sayAll ["writing", stem, "examples...."]
  let questions ← loadQuestions stem (.ok l)
  let named := stem ++ "-" ++ Text.integer n
  let c ← writeQuestions (.ok l) (ofQuestions questions) stem ("tlog-format/" ++ named ++ ".exam")
    (.integer n)
  writeCatalogue c ("tlog-format/kb-" ++ named ++ ".cfacts") "question_t"
    ["answer(question_t,entity_t)"]

def convertMovies : Studying α Unit := do
  let n ← match (← state).arguments with
    | [] => pure 1000
    | written :: _ => lift (readInteger written)
  let c ← loadMovies
  writeCatalogue c "tlog-format/kb-core.cfacts" "entity_t" []
  let l := Lexicon.absorb {} c
  sayAll [natural l.words.length, "plot words"]
  sayAll [natural l.names.length, "entity names"]
  ["dev", "train", "test"].forM (convertQuestions l n)

inductive MovieTask where
  | tokens | lexicon | unnumbered | load | write | examples | questions | check
  deriving DecidableEq, Repr

def unnumberedValue : Value α → Except Error (Value α)
  | .list items | .tuple items => do
    match items with
    | [] => throw .outOfRange
    | digit :: rest =>
      if !digit.isKey then throw .illTyped
      let numbers := match digit with
        | .text s => s.length == 1 && s.all Char.isDigit
        | _ => false
      if !numbers then throw (.refused .unstated)
      match rest with
      | [] => throw .outOfRange
      | .text " " :: rest => return .list rest
      | _ => throw (.refused .unstated)
  | .dictionary _ => .error .notFound
  | v => return .text (← Catalogue.unnumbered (← v.textual))

def MovieTask.perform (args : Args α) : MovieTask → Studying α (Value α)
  | .tokens => do
    let v : Value α ← argument args 0
    return .ofTexts (Lexicon.tokens (← lift v.sentence))
  | .lexicon => do
    let catalogue : Value α ← argument args 0
    let (l, done) := takeIn {} (catalogueEntries catalogue)
    lift done
    return .thing (← onBench (keep (.lexicon l)))
  | .unnumbered => do lift (unnumberedValue (← argument args 0))
  | .load => return ofCatalogue (← loadMovies)
  | .write => do
    let catalogue : Value α ← argument args 0
    let lines := catalogueLines (← settings).dialect catalogue (← argument args 2)
      (← argumentD args 3 (.list []))
    writeLines (← argument args 1) lines
    return .nothing
  | .examples => do
    let c ← writeQuestions (← lexiconAt 0) (← argument args 1) (← printed 2) (← argument args 3)
      (← argumentD args 4 .nothing)
    return ofCatalogue c
  | .questions => do return ofQuestions (← loadQuestions (← printed 0) (← lexiconAt 1))
  | .check => do
    let found ← checkAnswers (← argument args 0) (← lexiconAt 1)
    return match found.mapM Value.textual with
      | .ok names => .set names
      | .error _ => .list found
where
  printed (i : Nat) : Studying α String := do
    let v : Value α ← argument args i
    return v.printed (← settings).dialect
  lexiconAt (i : Nat) : Studying α (Except Error Lexicon) := do
    let v : Value α ← argument args i
    tryCatch (return .ok (← onBench (lexiconOf v))) fun e => return .error e

end BeliefLogic.Studies
