import Stache.Files.Tree
import Stache.Journal
import Stache.Symbol.Registry

/-!
# The scan of helper directories

Once per build, every file with the extension of helpers in one of their directories becomes a helper that
is found already. A directory is reached part by part, and its path stays as it is spelled, except that a
`.` at the beginning is dropped. Of several files for one name the one that comes last counts.
-/

namespace Stache

namespace FileTree

/-- A path from a place by one more part; the working directory adds nothing. -/
def partFrom (place part : Path) : Path :=
  if place.components = [.current] then part else place.join part

/-- Where parts lead from a place, one after the other, if all of them exist. -/
def walk? (tree : FileTree) (place : Path) : List (List Char) → Option Path
  | [] => some place
  | part :: parts =>
    let next := partFrom place ⟨String.ofList part⟩
    let isThere :=
      if part = ['.'] ∨ part = ['.', '.'] then tree.hasDir place else tree.has next
    if isThere then tree.walk? next parts else none

/-- A directory as it is reached part by part, from the root or from the working directory. The empty one
    is the root. -/
def reach? (tree : FileTree) (dir : Path) : Option Path :=
  if dir.isAbsolute || dir.text = "" then tree.walk? ⟨"/"⟩ (dir.parts.drop 1)
  else tree.walk? ⟨"."⟩ dir.parts

/-- The entries of a place whose names end with a dot and an extension, in order. -/
def matchingEntries (tree : FileTree) (place : Path) (extension : List Char) : List Path :=
  match tree.list place with
  | .error _ => []
  | .ok names =>
    (names.filter fun name => (Text.beforeMark? ('.' :: extension) name.toList).isSome).map
      fun name => partFrom place ⟨name⟩

/-- The files in a directory whose names end with a dot and an extension, in order. What stands behind a
    separator in the extension is looked for below the entries that match what stands before it. -/
def helperFiles (tree : FileTree) (extension : String) (dir : Path) : List Path :=
  match tree.reach? dir, extension.toList.splitOn '/' with
  | some place, first :: deeper =>
    ((tree.matchingEntries place first).filterMap fun entry => tree.walk? entry deeper).filter
      tree.hasFile
  | _, _ => []

end FileTree

/-- The helpers in directories, with their names, in order. -/
def helpersIn (tree : FileTree) (extension : String) (dirs : List Path) : List (String × Path) :=
  (dirs.flatMap (tree.helperFiles extension)).filterMap fun path =>
    path.fileStem?.map fun name => (name, path)

/-- Records helpers that were found. -/
def recordAll (helpers : List (String × Path)) (registry : Registry) : Registry :=
  helpers.foldl (fun registry (name, path) => registry.record name path) registry

/-- Scans directories, unless that has been done: the number of helpers, and what is known then. -/
def scanHelpers (tree : FileTree) (extension : String) (dirs : List Path) (registry : Registry)
    (journal : Journal) : Nat × Registry × Journal :=
  if dirs.isEmpty || registry.scanned then (0, registry, journal)
  else
    let helpers := helpersIn tree extension dirs
    (helpers.length, recordAll helpers registry.claimScan.2,
      helpers.foldl (fun journal (name, path) =>
        journal.log .debug ("Registered helper '" ++ name ++ "' from " ++ path.text)) journal)

end Stache
