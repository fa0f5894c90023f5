import Stache.Command.Help
import Stache.Command.Run

/-!
# The program

Reads the files that a command may look at, runs the command on them, and writes back what it changed. The
files are those below the working directory, and those at and below every absolute path on the command
line; the directories above them are known, but not what else is in those.
-/

namespace Stache.Program

/-! ## 1. Reading -/

/-- How many directories deep files are looked for. -/
def maxDepth : Nat := 64

/-- The location of an absolute path. -/
def locationOf (path : String) : Location :=
  (Path.mk path).normalize.components.filterMap fun
    | .normal name => some name
    | _ => none

/-- The path of a location. -/
def pathOf (place : Location) : String :=
  "/" ++ String.intercalate "/" place

/-- The tree with what stands at a path and below it. What cannot be read is left out. -/
def addBelow : Nat → FileTree → String → IO FileTree
  | 0, tree, _ => return tree
  | depth + 1, tree, path => do
    try
      let place ← IO.FS.realPath path
      let data ← place.metadata
      let time := data.modified.sec * 1000000000 + data.modified.nsec.toNat
      match data.type with
      | .dir =>
        let grown := tree.plant (locationOf path) (.dir time)
        (← place.readDir).foldlM
          (fun tree entry => addBelow depth tree (path ++ "/" ++ entry.fileName)) grown
      | _ =>
        let bytes ← IO.FS.readBinFile path
        return tree.plant (locationOf path) (.file (.bytes bytes) time)
    catch _ => return tree

/-- The tree with the directories that stand on the way to a path. -/
def addAbove (tree : FileTree) (path : String) : IO FileTree := do
  (Path.mk path).ancestors.foldlM (fun tree dir => do
    let place := locationOf dir.text
    if tree.isDirAt place then return tree
    try
      match (← (← IO.FS.realPath dir.text).metadata).type with
      | .dir => return tree.plant place (.dir 0)
      | _ => return tree
    catch _ => return tree) tree

/-- The absolute paths on a command line. -/
def absolutePaths (arguments : List String) : List String :=
  arguments.filterMap fun argument =>
    let text := argument.toList
    let value := if text.head? == some '-' then (text.dropWhile (· ≠ '=')).drop 1 else text
    if value.head? == some '/' then some (String.ofList value) else none

/-- The files that a command may look at. Writes are stamped later than all of them. -/
def readFiles (arguments : List String) : IO FileTree := do
  let cwd := (← IO.currentDir).toString
  let start : FileTree := { cwd := locationOf cwd }
  let tree ← (cwd :: absolutePaths arguments).foldlM (fun tree path => do
    addBelow maxDepth (← addAbove tree path) path) start
  let latest := tree.entries.toList.foldl (fun time (_, entry) => max time entry.modified) 0
  return { tree with now := latest + 1 }

/-- The variables of the environment. -/
def readEnvironment : IO Environment := do
  let bytes ← try IO.FS.readBinFile "/proc/self/environ" catch _ => pure ByteArray.empty
  let text := ((String.fromUTF8? bytes).getD "").toList
  return (text.splitOn '\x00').filterMap fun line =>
    (Text.cut? ['='] line).map fun (name, value) => (String.ofList name, String.ofList value)

/-! ## 2. Writing -/

/-- Writes what differs between two trees. -/
def writeChanges (old new : FileTree) : IO Unit := do
  for (place, entry) in new.entries.toList do
    if (old.entryAt? place).map Entry.modified ≠ some entry.modified then
      match entry with
      | .dir _ => IO.FS.createDirAll (pathOf place)
      | .file (.bytes data) _ => IO.FS.writeBinFile (pathOf place) data
      | .file (.zeros size) _ =>
        IO.FS.writeBinFile (pathOf place) ⟨Array.replicate size 0⟩
  for (place, _) in old.files do
    if (new.entryAt? place).isNone then
      IO.FS.removeFile (pathOf place)

/-- Logs the messages that are wanted. -/
def writeLog (verbosity : Verbosity) (journal : Journal) : IO Unit := do
  for (level, message) in journal.messages do
    if verbosity.logs level then
      IO.eprintln (level.label ++ " " ++ message)

/-- Tells why a command line is not run: the exit code. -/
def refuse (fault : UsageFault) : IO UInt32 := do
  if fault.isAnswer then
    IO.println fault.message
    return 0
  else
    IO.eprintln fault.message
    return 2

/-- Runs a command: the exit code. -/
def run (invocation : Invocation) (environment : Environment) (tree : FileTree) : IO UInt32 := do
  let outcome := invocation.run environment tree
  writeChanges tree outcome.tree
  writeLog (invocation.verbosity tree) outcome.journal
  IO.print outcome.printed
  match outcome.failure with
  | none => return 0
  | some failure =>
    IO.eprint (Report.ofFailure failure).printed
    return 1

end Stache.Program

/-- Runs the command line. -/
def main (arguments : List String) : IO UInt32 := do
  let environment ← Stache.Program.readEnvironment
  match Stache.Invocation.ofArguments environment arguments with
  | .error fault => Stache.Program.refuse fault
  | .ok invocation =>
    Stache.Program.run invocation environment (← Stache.Program.readFiles arguments)
