import Stache.Files.Tree
import Stache.Search.Symbol
import Stache.Text.Distance

/-!
# Suggestions

Names of existing partials that are close to one that was not found. The directories that were searched
are listed, in the subdirectory that the name asks for, and every entry with one of the extensions counts
as a partial. The closest names come first, and at most three are given.
-/

namespace Stache

/-- The greatest distance of a suggestion, in percent of the length of the name. -/
def suggestionPercent : Nat := 50

/-- The number of suggestions. -/
def maxSuggestions : Nat := 3

/-- The number of entries that are listed at once. -/
def pieceSize : Nat := 32

/-- The name of an entry without the first of the extensions that it ends with. -/
def stemOf? (extensions : List String) (entry : String) : Option String :=
  (extensions.filter (· ≠ "")).findSome? fun extension =>
    (Text.beforeMark? extension.toList entry.toList).map String.ofList

/-- The part of a name up to its last separator. -/
def subdirOf (name : String) : String :=
  match Text.cutLast? '/' name.toList with
  | some (subdir, _) => String.ofList subdir
  | none => ""

namespace SearchPlan

/-- The directory that is listed in a search directory. -/
def listed (subdir : String) (context : Path) : Path :=
  if subdir = "" then context else context.join ⟨subdir⟩

/-- The names of the partials in a directory, as seen from the directory that is searched. -/
def partialsIn (plan : SearchPlan) (tree : FileTree) (subdir : String) (context : Path) :
    List String :=
  match tree.list (listed subdir context) with
  | .error _ => []
  | .ok entries =>
    (entries.filterMap (stemOf? plan.config.extensions)).map fun stem =>
      if subdir = "" then stem else subdir ++ "/" ++ stem

/-- A closer name first, and of equally close ones the first in order. -/
def closer (a b : Nat × String) : Bool :=
  a.1 < b.1 || (a.1 == b.1 && a.2 ≤ b.2)

/-- The suggestions for a name. -/
def suggestions (plan : SearchPlan) (tree : FileTree) (name : String) : List String :=
  let subdir := subdirOf name
  let available := ((plan.contexts .partialTemplate).flatMap (plan.partialsIn tree subdir)).filter
    (· ≠ name)
  let scored := available.map fun other => (Text.distance name.toList other.toList, other)
  let near := scored.filter fun (distance, _) =>
    distance ≤ name.utf8ByteSize * suggestionPercent / 100
  (((near.mergeSort closer).eraseRepsBy (· == ·)).take maxSuggestions).map (·.2)

/-- How often the file system is asked to list the directories for suggestions. A directory is listed in
    pieces, and one more question tells that there is no further piece. -/
def questionsToSuggest (plan : SearchPlan) (tree : FileTree) (name : String) : Nat :=
  (plan.contexts .partialTemplate).foldl (fun count context =>
    match tree.list (listed (subdirOf name) context) with
    | .error _ => count + 1
    | .ok entries => count + (entries.length / pieceSize + 1)) 0

end SearchPlan

end Stache
