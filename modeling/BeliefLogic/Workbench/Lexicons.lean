import BeliefLogic.Catalogue
import BeliefLogic.Workbench.Arguments

/-!
# Lexicons and catalogues in a session

A catalogue is taken item by item, and fails where an item is not what is needed.
-/

namespace BeliefLogic.Workbench

open Run

variable {α : Type}

def textsOf (v : Value α) : Work α (List String) := do
  (← itemsOf v).mapM fun item => lift item.textual

def orFailure {β γ : Type} (f : β → List (Except Error γ)) : Except Error β → List (Except Error γ)
  | .ok b => f b
  | .error e => [.error e]

def listed (v : Value α) : List (Except Error (Value α)) := orFailure (·.map .ok) v.items

/-- The items of a value with what it holds under them. -/
def keyed : Value α → List (Except Error (Value α × Except Error (Value α)))
  | .dictionary entries => entries.map fun (k, v) => .ok (k, .ok v)
  | v => (listed v).map fun item => return (← item, .error .illTyped)

/-- The objects of a catalogue with relation, after each subject. -/
def catalogued {β : Type} (subject : Value α → List (Except Error β))
    (objects : Value α → Value α → Value α → List (Except Error β)) (c : Value α) :
    List (Except Error β) :=
  (keyed c).flatMap <| orFailure fun (relation, subjects) =>
    subjects |> orFailure fun subjects =>
      (keyed subjects).flatMap <| orFailure fun (s, listing) =>
        subject s ++ (listing |> orFailure fun listing => objects relation s listing)

/-- A catalogue as lines of facts: first all declarations. -/
def catalogueLines [Scalar α] (d : Dialect) (c subjectType further : Value α) :
    List (Except Error String) :=
  let declarations := (listed c).map fun r =>
    return Catalogue.declaration (subjectType.printed d) ((← r).printed d)
  let further := (listed further).map fun item => return (← item).printed d
  let facts := catalogued (fun _ => []) (fun relation subject objects =>
    (listed objects).map fun object =>
      return Catalogue.factLine (← relation.textual) (← subject.textual) (← (← object).textual)) c
  (declarations ++ further).map (fun line => return Catalogue.declarationLine (← line)) ++ facts

def ofCatalogue (c : Catalogue) : Value α :=
  .dictionary (c.relations.entries.map fun (relation, subjects) =>
    (.text relation, .dictionary (subjects.entries.map fun (subject, objects) =>
      (.text subject, .set objects))))

inductive LexiconEntry where
  | name (s : String)
  | word (s : String)
  deriving DecidableEq, Repr

def LexiconEntry.addTo (l : Lexicon) : LexiconEntry → Lexicon
  | .name s => l.add s
  | .word s => l.addWord s

def nameEntry (v : Value α) : Except Error LexiconEntry :=
  match v with
  | .text s => .ok (.name s)
  | v => .error (if v.isKey then .missingPart else .illTyped)

def catalogueEntries : Value α → List (Except Error LexiconEntry) :=
  catalogued (fun subject => [nameEntry subject]) fun relation _ objects =>
    (listed objects).map fun object => do
      match relation with
      | .text "has_plot" => return .word (← (← object).textual)
      | _ => nameEntry (← object)

def takeIn (l : Lexicon) : List (Except Error LexiconEntry) → Lexicon × Except Error Unit
  | [] => (l, .ok ())
  | .error e :: _ => (l, .error e)
  | .ok entry :: entries => takeIn (entry.addTo l) entries

def lexiconOf (v : Value α) : Work α Lexicon := do
  match ← meant? v with
  | some (_, .lexicon l) => return l
  | _ => missing

inductive LexiconCommand where
  | read | longest | add | absorb | parts | words | names
  deriving DecidableEq, Repr

/-- What follows a place; one counted from the end goes on at the start. -/
def following {β : Type} (items : List β) (i : Int) : List β :=
  if 0 ≤ i then items.drop (i.toNat + 1)
  else items.drop (items.length - i.natAbs + 1) ++ items

def leadingTexts : List (Value α) → List String
  | .text s :: items => s :: leadingTexts items
  | _ => []

def lexiconParts (l : Lexicon) : Value α :=
  let rests := l.rests.entries.map fun (first, rests) =>
    (Value.text first, Value.list ((rests.mergeSort fun a b => !decide (b < a)).map .ofTexts))
  .dictionary [(.text "index", .dictionary rests), (.text "name_set", .set l.names),
    (.text "word_set", .set l.words)]

def LexiconCommand.perform [Scalar α] (id : Nat) (l : Lexicon) (args : Args α) :
    LexiconCommand → Work α (Value α)
  | .read => do
    let v ← args.value 0
    return .ofTexts (l.read (← lift v.sentence) (← args.getD 1 false))
  | .longest => do
    let i : Int ← args.get 0
    let items ← itemsOf (← args.get 1)
    match ← lift (itemAt items i) with
    | .text word =>
      match l.longest word (leadingTexts (following items i)) with
      | some rest => return .tuple (rest.map .text)
      | none => return .nothing
    | v => if v.isKey then return .nothing else mismatch
  | .add => do
    let v ← args.value 0
    replace id (.lexicon ((← lift (nameEntry v)).addTo l))
  | .absorb => do
    let catalogue ← args.value 0
    let (l, done) := takeIn l (catalogueEntries catalogue)
    replace id (.lexicon l)
    lift done
  | .parts => return lexiconParts l
  | .words => return .set l.words
  | .names => return .set l.names

end BeliefLogic.Workbench
