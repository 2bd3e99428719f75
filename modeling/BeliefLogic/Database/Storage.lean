import BeliefLogic.Database.Facts

/-!
# Saving and listing databases

A saved database is used in place of its facts as long as it is newer.
-/

namespace BeliefLogic

open Text

namespace Database

variable {α : Type}

inductive Selection where
  | all
  | params
  | fixed
  deriving DecidableEq, Repr

def selected [Scalar α] (db : Database α) : Selection → List (Predicate × Operand α)
  | .all => db.relations.entries
  | .params => db.relations.entries.filter fun (p, _) => db.isParam p
  | .fixed => db.relations.entries.filter fun (p, _) => !db.isParam p

/-- The name under which a matrix is saved, in characters of one byte. -/
def savedName? (p : Predicate) : Option String :=
  if isNarrow (quoted p.functor) then some p.text else none

def ofSavedName (s : String) : Predicate :=
  let digits := (s.toList.reverse.takeWhile (· != '/')).reverse
  let functor := s.toList.take (s.length - digits.length - 1)
  ⟨String.ofList functor, (readInteger? (String.ofList digits)).getD 0⟩

end Database

namespace Run

variable {α σ : Type} [Scalar α]

/-- The first matrix whose name cannot be saved ends the file. -/
def saveMatrices (path : String) (items : List (Option String × Matrix α)) : Run α σ Unit := do
  let saved := (items.takeWhile (·.1.isSome)).map fun (name, m) => (name.getD "", m)
  let fs ← files
  match fs.write path (.matrices saved) with
  | .ok fs => setFiles fs
  | .error e =>
    if endsWith ".mat" path then fail e
    setFiles (← lift (fs.write (path ++ ".mat") (.matrices saved)))
  if saved.length < items.length then fail .unencodable

/-- Why a text is no archive: a head of 128 bytes is looked for. -/
def notMatrices (chars : String) : Error :=
  match chars.utf8ByteSize with
  | 0 => .emptyFile
  | n => if n < 4 then .illTyped else if n < 127 then .outOfRange else .malformed

/-- The matrices saved in a file; the ending `.mat` may be left out. -/
def loadMatrices (path : String) : Run α σ (List (String × Matrix α)) := do
  let fs ← files
  let path := if fs.isFile path || endsWith ".mat" path then path else path ++ ".mat"
  match ← lift (fs.content path) with
  | .matrices items => return items.map fun (name, m) => (name, m.mapRows Matrix.sortRow)
  | .text chars => fail (notMatrices chars)

def saveRelations (db : Database α) (path : String) (which : Database.Selection) : Run α σ Unit :=
  saveMatrices path (((db.selected which).filter fun (p, _) => p.functor != "_").filterMap
    fun (p, x) => x.matrix?.map fun m => (Database.savedName? p, m))

def loadRelations (path : String) : Run α σ (Dictionary Predicate (Matrix α)) := do
  return .ofList ((← loadMatrices path).map fun (name, m) => (Database.ofSavedName name, m))

def importRelations (path : String) : Run α (Database α) Unit := do
  for (p, m) in (← loadRelations path).entries do
    update (·.putRelation p m)

/-- Saves a database in a directory, which is made if need be. -/
def saveDatabase (db : Database α) (directory : String) : Run α σ Unit := do
  setFiles (← lift ((← files).ensureDirectory directory))
  saveSchema db.schema directory
  saveRelations db (Files.join directory "db.mat") .all

def loadDatabase (directory : String) : Run α σ (Database α) := do
  let schema ← loadSchema directory
  let relations ← loadRelations (Files.join directory "db.mat")
  checkTyping schema relations.keys false
  return { schema, relations := relations.mapValues .matrix }

/-- Whether a saved copy is missing or older than one of its sources. -/
def isStale (copy : String) (sources : List String) : Run α σ Bool := do
  let fs ← files
  if !fs.exist copy then return true
  let stamps ← lift (sources.mapM fs.stamp)
  let own ← lift (fs.stamp copy)
  return stamps.any fun t => decide (own < t)

/-- The database of fact files, through a saved copy unless that is stale. -/
def cachedFacts (directory paths : String) (schema : Schema) : Run α σ (Database α) := do
  if ← isStale directory (fields ':' paths) then
    let db ← loadFacts paths schema
    saveDatabase db directory
    setFiles ((← files).touch directory)
    return db
  else loadDatabase directory

/-- Prints a line on each relation, with its types if there are any. -/
def listDatabase (db : Database α) : Run α σ Unit := do
  for p in db.sorted do
    say (p.text ++ ": " ++ (← lift (db.summary p)))
  if !db.isTypeless then
    for p in db.sorted do
      let types ← (List.range p.arity.toNat).mapM fun (i : Nat) => lift (db.schema.argType p i)
      match types.mapM id with
      | some types => say ("typing: " ++ p.functor ++ "(" ++ ",".intercalate types ++ ")")
      | none => fail .illTyped

def strayWeight (p : Predicate) (type : Option String) (x : α) : String :=
  let size := if x < Scalar.ofLiteral (.decimal false 1 (-10)) then "low" else "large"
  "ignoring " ++ size ++ " weight " ++ Text.general 6 (Scalar.toFloat x) ++
    " placed on index 0 for type " ++ type.getD "None" ++ " in predicate " ++ p.functor

/-- The facts of a matrix. Weight of the unused number is reported if stored first. -/
def relationFacts (db : Database α) (p : Predicate) (m : Matrix α) :
    Run α σ (List (List (Option String) × α)) := do
  let type ← lift (db.schema.argType p 0)
  if p.arity = 2 then
    let type' ← lift (db.schema.argType p 1)
    m.entries.mapM fun (i, j, x) => do
      let a ← lift (db.schema.name type i)
      let b ← lift (db.schema.name type' j)
      return ([a, b], x)
  else if p.arity ≠ 1 then refuse (.badArity p.arity)
  else
    let found ← m.entries.zipIdx.mapM fun ((i, j, x), k) => do
      require (i == 0) (.notFirstRow "m1.row" k)
      match ← lift (db.schema.name type j) with
      | some s => return some ([some s], x)
      | none =>
        require (k == 0) (.namelessWeight (Text.general 6 (Scalar.toFloat x)) k
          (type.getD "None") p.functor)
        warn (strayWeight p type x)
        return none
    return found.filterMap id

end Run

end BeliefLogic
