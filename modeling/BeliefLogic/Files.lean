import BeliefLogic.Matrix.Basic

/-!
# Files

A store of named texts and saved matrices. Writes are stamped with a counter, to compare ages.
-/

namespace BeliefLogic

open Text

inductive Content (α : Type) where
  | text (chars : String)
  | matrices (items : List (String × Matrix α))
  deriving Inhabited

structure Files (α : Type) where
  entries : List (String × Content α × Nat) := []
  directories : List (String × Nat) := []
  clock : Nat := 0
  deriving Inhabited

namespace Files

variable {α : Type}

def join (directory name : String) : String :=
  if directory.isEmpty || endsWith "/" directory then directory ++ name
  else directory ++ "/" ++ name

def splitPath (path : String) : String × String :=
  let name := (path.toList.reverse.takeWhile (· != '/')).reverse
  let before := path.toList.take (path.length - name.length)
  let trimmed := (before.reverse.dropWhile (· == '/')).reverse
  (String.ofList (if trimmed.isEmpty then before else trimmed), String.ofList name)

inductive Standing where
  | file
  | directory
  | nothing
  deriving DecidableEq, Repr

/-- What stands at a place. The root and what is above are always there. -/
def standing (fs : Files α) (place : String) : Standing :=
  if place == "" || place == "/" || (fields '/' place).all (· == "..") then .directory
  else if fs.entries.any (·.1 == place) then .file
  else if fs.directories.any (·.1 == place) then .directory
  else .nothing

def above (place : String) : String :=
  if (fields '/' place).all fun p => p == "" || p == ".." then
    if startsWith "/" place then "/" else join place ".."
  else (splitPath place).1

def longestName : Nat := 255

/-- The place to which parts of a path lead, all but the last through directories. -/
def follow (fs : Files α) : String → List String → Except Error String
  | here, [] => .ok here
  | here, part :: rest =>
    match fs.standing here with
    | .file => .error .notDirectory
    | .nothing => if part == "" && rest.isEmpty then .ok here else .error .missingFile
    | .directory =>
      if part == "" || part == "." then fs.follow here rest
      else if part == ".." then fs.follow (above here) rest
      else if longestName < part.utf8ByteSize then .error .nameTooLong
      else fs.follow (join here part) rest

def place (fs : Files α) (path : String) : Except Error String :=
  if path.toList.contains '\x00' then .error .malformed
  else if path == "" then .error .missingFile
  else fs.follow (if startsWith "/" path then "/" else "") (fields '/' path)

def found (fs : Files α) (path : String) : Standing :=
  match fs.place path with
  | .ok place => fs.standing place
  | .error _ => .nothing

def isFile (fs : Files α) (path : String) : Bool := fs.found path == .file

def exist (fs : Files α) (path : String) : Bool := fs.found path != .nothing

def stamp (fs : Files α) (path : String) : Except Error Nat := do
  let place ← fs.place path
  match fs.entries.find? (·.1 == place) with
  | some (_, _, t) => return t
  | none =>
    match fs.directories.find? (·.1 == place) with
    | some (_, t) => return t
    | none => if fs.standing place == .directory then return 0 else throw .missingFile

def content (fs : Files α) (path : String) : Except Error (Content α) := do
  let place ← fs.place path
  match fs.entries.find? (·.1 == place) with
  | some (_, c, _) => return c
  | none => throw (if fs.standing place == .directory then .isDirectory else .missingFile)

def read (fs : Files α) (path : String) : Except Error String := do
  match ← fs.content path with
  | .text chars => return String.ofList (unifyNewlines chars.toList)
  | .matrices _ => throw .undecodable

def lines (fs : Files α) (path : String) : Except Error (List String) := do
  return Text.fileLines (← fs.read path)

def makePlace (fs : Files α) (place : String) : Files α :=
  let t := fs.clock + 1
  let parent := (splitPath place).1
  { fs with
    directories := (fs.directories.map fun (p, s) => if p == parent then (p, t) else (p, s)) ++
      [(place, t)]
    clock := t }

/-- Makes the directories along a path that are not there yet. -/
def makeAlong (fs : Files α) : String → List String → Except Error (Files α)
  | _, [] => .ok fs
  | here, part :: rest =>
    if part == "" || part == "." then fs.makeAlong here rest
    else if part == ".." then fs.makeAlong (above here) rest
    else if longestName < part.utf8ByteSize then .error .nameTooLong
    else
      let next := join here part
      match fs.standing next with
      | .file => .error (if rest.all (· == "") then .alreadyThere else .notDirectory)
      | .directory => fs.makeAlong next rest
      | .nothing => (fs.makePlace next).makeAlong next rest

def makeDirectory (fs : Files α) (path : String) : Except Error (Files α) :=
  if path == "" then .error .missingFile
  else fs.makeAlong (if startsWith "/" path then "/" else "") (fields '/' path)

def makeSingleDirectory (fs : Files α) (path : String) : Except Error (Files α) := do
  let place ← fs.place path
  match fs.standing place with
  | .nothing => return fs.makePlace place
  | _ => throw .alreadyThere

/-- Makes a directory and all above it unless something is there. -/
def ensureDirectory (fs : Files α) (path : String) : Except Error (Files α) :=
  if fs.exist path then .ok fs else fs.makeDirectory path

def touch (fs : Files α) (path : String) : Files α :=
  match fs.place path with
  | .ok place =>
    { fs with
      entries := fs.entries.map fun (p, c, t) =>
        if p == place then (p, c, fs.clock + 1) else (p, c, t)
      directories := fs.directories.map fun (p, t) =>
        if p == place then (p, fs.clock + 1) else (p, t)
      clock := fs.clock + 1 }
  | .error _ => fs

def put (fs : Files α) (place : String) (c : Content α) : Files α :=
  let t := fs.clock + 1
  if fs.entries.any (·.1 == place) then
    { fs with
      entries := fs.entries.map fun e => if e.1 == place then (place, c, t) else e
      clock := t }
  else
    let parent := (splitPath place).1
    { entries := fs.entries ++ [(place, c, t)]
      directories := fs.directories.map fun (p, s) => if p == parent then (p, t) else (p, s)
      clock := t }

def write (fs : Files α) (path : String) (c : Content α) : Except Error (Files α) :=
  if 1 < path.length && endsWith "/" path then
    match fs.place (String.ofList path.toList.dropLast) with
    | .ok _ => .error .isDirectory
    | .error e => .error e
  else do
    let place ← fs.place path
    match fs.standing place with
    | .directory => throw .isDirectory
    | _ => return fs.put place c

def install (fs : Files α) (path : String) (c : Content α) : Except Error (Files α) := do
  let parent := (splitPath path).1
  (← if parent == "" then pure fs else fs.ensureDirectory parent).write path c

end Files

end BeliefLogic
