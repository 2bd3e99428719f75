import BeliefLogic.Archive
import BeliefLogic.Studies.Subjects

/-!
# The command line

The first argument names a tool or a study, which works on the files below the directory.
-/

namespace BeliefLogic.CommandLine

open Studies

/-- A file that was found: when it was changed, its path and its content. -/
structure FoundFile where
  changed : IO.FS.SystemTime
  path : String
  content : Content Float

/-- The text files at and below entries. What cannot be read as text is left out. -/
partial def findFiles (above : String) (entries : Array IO.FS.DirEntry) : IO (List FoundFile) := do
  let found ← entries.toList.mapM fun e => do
    let path := Files.join above e.fileName
    if ← e.path.isDir then findFiles path (← e.path.readDir)
    else
      try
        let chars ← IO.FS.readFile e.path
        return [⟨(← e.path.metadata).modified, path, Archive.read chars⟩]
      catch _ => return []
  return found.flatten

def readFiles : IO (Files Float) := do
  let found ← findFiles "" (← (← IO.currentDir).readDir)
  let byAge := found.mergeSort fun a b => (compare a.changed b.changed).isLE
  return byAge.foldl (fun fs f =>
    (fs.install f.path f.content).toOption.getD fs) {}

/-- Makes the directories and writes the files that are newer than a time. -/
def writeFiles (fs : Files Float) (since : Nat) : IO Unit := do
  for (path, t) in fs.directories do
    if since < t then IO.FS.createDirAll path
  for (path, content, t) in fs.entries do
    if since < t then IO.FS.writeFile path (Archive.contentText content)

inductive Program where
  | tool (t : Tool)
  | study (s : Subject)

def named? (name : String) : Option Program :=
  ((Tool.names.lookup name).map .tool).or ((Subject.names.lookup name).map .study)

def Program.run (args input : List String) : Program → Run Float Unit Unit
  | .tool t => t.run args
  | .study s => do
    let _ ← Run.within { arguments := args, input } (do
      s.greet
      s.run)

partial def readLines (stream : IO.FS.Stream) : IO (List String) := do
  let line ← stream.getLine
  if line.isEmpty then return [] else return line :: (← readLines stream)

def failureText (e : Error) : String :=
  match e.message? with
  | some message => e.kind ++ ": " ++ message
  | none => e.kind

def execute (program : Program) (args : List String) : IO UInt32 := do
  let files ← readFiles
  let input ← match program with
    | .tool _ => pure []
    | .study _ => readLines (← IO.getStdin)
  let world : World Float := { settings := .standard Float, files }
  let (code, failure, world) := match (program.run args input).run (world, ()) with
    | .ok _ (w, _) => (0, none, w)
    | .error (.exit code) (w, _) => (code, none, w)
    | .error e (w, _) => (1, some e, w)
  IO.print (String.join world.printed.toList)
  for l in world.log do
    IO.eprintln l.text
  writeFiles world.files files.clock
  if let some e := failure then IO.eprintln (failureText e)
  return code.toNat.toUInt32

end BeliefLogic.CommandLine

open BeliefLogic BeliefLogic.CommandLine BeliefLogic.Studies in
def main (args : List String) : IO UInt32 := do
  match args with
  | name :: rest =>
    if let some program := named? name then return ← execute program rest
  | [] => pure ()
  IO.eprintln ("tools: " ++ " ".intercalate (Tool.names.map (·.1)))
  IO.eprintln ("studies: " ++ " ".intercalate (Subject.names.map (·.1)))
  return 2
