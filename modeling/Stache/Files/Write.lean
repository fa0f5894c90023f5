import Stache.Files.Tree
import Stache.Report.Failure

/-!
# Writing files

Directories are made with everything above them that is missing, and files are replaced at once: whoever
reads sees the old content or the new one. What was made before a failure stays.
-/

namespace Stache

namespace FileTree

/-- Makes the first of some directories; the others are the ones above it, from the inside out. -/
def makeDirs (tree : FileTree) : List Path → Except IoError Unit × FileTree
  | [] => (.ok (), tree)
  | dir :: above =>
    if dir.components = [] then (.ok (), tree)
    else
      match tree.makeDir dir with
      | .ok tree => (.ok (), tree)
      | .error .notFound =>
        match tree.makeDirs above with
        | (.error error, tree) => (.error error, tree)
        | (.ok (), tree) => makeAgain tree dir
      | .error error => settled tree dir error
where
  /-- It is no failure if the directory is there already. -/
  settled (tree : FileTree) (dir : Path) (error : IoError) : Except IoError Unit × FileTree :=
    if error = .alreadyExists ∧ tree.hasDir dir then (.ok (), tree) else (.error error, tree)
  /-- Makes a directory once those above it are there. -/
  makeAgain (tree : FileTree) (dir : Path) : Except IoError Unit × FileTree :=
    match tree.makeDir dir with
    | .ok tree => (.ok (), tree)
    | .error error => settled tree dir error

/-- Makes sure that a directory is there. -/
def ensureDir (tree : FileTree) (dir : Path) : Except Failure Unit × FileTree :=
  if tree.has dir then
    if tree.hasDir dir then (.ok (), tree)
    else (.error (.ofCause (.plain ("Path exists but is not a directory: " ++ dir.text))), tree)
  else
    match tree.makeDirs dir.ancestors with
    | (.ok (), tree) => (.ok (), tree)
    | (.error error, tree) =>
      (.error ((Failure.ofCause (.io error)).addContext
        ("Failed to create directory: " ++ dir.text ++
          "\n\nCheck directory permissions and path validity")), tree)

/-- The directory that a file is written in. -/
def dirOf (path : Path) : Path :=
  match path.parent? with
  | some parent => if parent.text = "" then ⟨"."⟩ else parent
  | none => ⟨"."⟩

/-- Writes a file, with all directories that it needs. -/
def writeFile (tree : FileTree) (path : Path) (text : String) : Except Failure Unit × FileTree :=
  match tree.ensureDir (dirOf path) with
  | (.error failure, tree) => (.error failure, tree)
  | (.ok (), tree) =>
    match tree.replaceFile path (.ofText text) with
    | .ok tree => (.ok (), tree)
    | .error error =>
      (.error ((Failure.ofCause (.io error)).addContext
        ("Failed to rename temp file to: " ++ path.text)), tree)

end FileTree

end Stache
