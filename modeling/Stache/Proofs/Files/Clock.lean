import Stache.Search.HelperScan
import Stache.Proofs.Files.Changed

/-!
# The clock

The time that writes are stamped with is no matter of what is read: paths lead where they led, and the scan
of helper directories finds what it found.

* `locate_now`, `stat_now`, `list_now` -- reading;
* `helpersIn_now` -- the scan.
-/

namespace Stache

namespace FileTree

variable (tree : FileTree) (now : Int)

/-! ## 1. Reading -/

theorem descend_now (place : Location) (parts : List (List Char)) :
    FileTree.descend { tree with now } place parts = tree.descend place parts := by
  induction parts generalizing place with
  | nil => rfl
  | cons part parts ih =>
    rw [descend_cons, descend_cons]
    show tree.enter place part >>= (FileTree.descend { tree with now } · parts) = _
    cases tree.enter place part with
    | error error => rfl
    | ok next => exact ih next

/-- Paths lead where they led. -/
theorem locate_now (p : Path) : FileTree.locate { tree with now } p = tree.locate p := by
  unfold locate
  cases checkSpelling p with
  | error error => rfl
  | ok => exact tree.descend_now now _ _

theorem stat_now (p : Path) : FileTree.stat { tree with now } p = tree.stat p := by
  unfold stat
  rw [tree.locate_now now]
  rfl

theorem list_now (p : Path) : FileTree.list { tree with now } p = tree.list p := by
  unfold list
  rw [tree.locate_now now]
  rfl

theorem hasFile_now (p : Path) : FileTree.hasFile { tree with now } p = tree.hasFile p := by
  unfold hasFile
  rw [tree.stat_now now]

/-! ## 2. The scan -/

theorem walk?_now (place : Path) (parts : List (List Char)) :
    FileTree.walk? { tree with now } place parts = tree.walk? place parts := by
  induction parts generalizing place with
  | nil => rfl
  | cons part parts ih =>
    unfold walk?
    dsimp only
    unfold has hasDir
    rw [tree.stat_now now, tree.stat_now now, ih]

theorem helperFiles_now (extension : String) (dir : Path) :
    FileTree.helperFiles { tree with now } extension dir = tree.helperFiles extension dir := by
  have hreach : FileTree.reach? { tree with now } dir = tree.reach? dir := by
    unfold reach?
    rw [tree.walk?_now now, tree.walk?_now now]
  have hentries (place : Path) (first : List Char) :
      FileTree.matchingEntries { tree with now } place first = tree.matchingEntries place first := by
    unfold matchingEntries
    rw [tree.list_now now]
  unfold helperFiles
  rw [hreach]
  simp only [hentries, funext (tree.hasFile_now now), tree.walk?_now now]

end FileTree

/-- **The scan finds what it found.** -/
theorem helpersIn_now (tree : FileTree) (now : Int) (extension : String) (dirs : List Path) :
    helpersIn { tree with now } extension dirs = helpersIn tree extension dirs := by
  unfold helpersIn
  rw [funext (tree.helperFiles_now now extension)]

end Stache
