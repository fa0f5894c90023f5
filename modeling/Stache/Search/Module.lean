import Stache.Files.Tree
import Stache.Search.Probe

/-!
# Modules in the file system

Where the module behind a request is. A request that is a path is looked for at that path only; any other
one is looked for in the directory itself, then in the module directories of it and of every directory
above it. At each place the file itself is tried with every extension, then an index file inside.

A file system is any answer to the question whether a file is at a path; the file tree is one.
-/

namespace Stache

/-! ## 1. Where modules may be -/

/-- What module resolution depends on. -/
structure ModuleRules where
  /-- The extensions that a file is tried with, in order. -/
  extensions : List String := ["", ".js"]
  /-- The names of directories that hold modules, in order. -/
  directories : List String := ["node_modules"]

namespace ModuleRules

/-- The request is a path, absolute or relative. -/
def isPathRequest (request : String) : Bool :=
  let text := request.toList
  text == ['.'] || text == ['.', '.'] || (Text.afterMark? "./".toList text).isSome ||
    (Text.afterMark? "../".toList text).isSome || text.head? == some '/'

/-- The places where a request may lead, in order. -/
def roots (rules : ModuleRules) (base : Path) (request : String) : List Path :=
  let direct := (base.join ⟨request⟩).normalize
  if isPathRequest request then [direct]
  else
    direct :: base.ancestors.flatMap fun above =>
      rules.directories.map fun directory => ((above.join ⟨directory⟩).join ⟨request⟩).normalize

/-- The files that are tried at a place, in order. -/
def candidatesAt (rules : ModuleRules) (root : Path) : List Path :=
  rules.extensions.map (fun extension => ⟨root.text ++ extension⟩) ++
    rules.extensions.map fun extension => root.join ⟨"index" ++ extension⟩

/-- All files that are tried, in order. -/
def candidates (rules : ModuleRules) (base : Path) (request : String) : List Path :=
  (rules.roots base request).flatMap rules.candidatesAt

end ModuleRules

/-! ## 2. Probing -/

/-- Whether a path leads to a regular file, as a file system tells it, or why it cannot tell. -/
abbrev FileView := Path → Except IoError Bool

namespace FileView

/-- The path leads to a regular file. What cannot be looked at is an error, what is not there is not. -/
def probeFile (view : FileView) (path : Path) : Except ProbeError Bool :=
  match view path with
  | .ok isFile => .ok isFile
  | .error error => if error.isAbsence then .ok false else .error (.inaccessible path error.message)

/-- The first of some candidates that is a file. -/
def firstFile? (view : FileView) : List Path → Except ProbeError (Option Path)
  | [] => .ok none
  | path :: paths => do
    if ← view.probeFile path then return some path else view.firstFile? paths

/-- The number of candidates that are looked at until one is a file or cannot be looked at. -/
def looks (view : FileView) : List Path → Nat
  | [] => 0
  | path :: paths =>
    match view.probeFile path with
    | .ok false => view.looks paths + 1
    | _ => 1

/-- The module behind a request, as seen from a directory. -/
def resolveModule (view : FileView) (rules : ModuleRules) (base : Path) (request : String) :
    Except ProbeError Path := do
  match ← view.firstFile? (rules.candidates base request) with
  | some path => return path
  | none => throw (.notFound base request)

/-- Answers probes by looking at a file system. -/
def moduleResolver (view : FileView) (rules : ModuleRules) : ModuleResolver :=
  fun _ base request => view.resolveModule rules base request

end FileView

/-- What a file tree tells of its files. -/
def FileTree.view (tree : FileTree) : FileView :=
  fun path => (tree.stat path).map Entry.isFile

/-- The module behind a request in a file tree, as seen from a directory. -/
def FileTree.resolveModule (tree : FileTree) (rules : ModuleRules) (base : Path) (request : String) :
    Except ProbeError Path :=
  tree.view.resolveModule rules base request

/-- Answers probes from a file tree. -/
def FileTree.moduleResolver (tree : FileTree) (rules : ModuleRules) : ModuleResolver :=
  fun _ base request => tree.resolveModule rules base request

end Stache
