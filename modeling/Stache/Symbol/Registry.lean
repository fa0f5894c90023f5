import Std.Data.ExtTreeMap
import Std.Data.ExtTreeSet
import Stache.Files.Path

/-!
# The registry of helpers

All jobs of one build share a registry: the names that are known to be helpers, and where the helpers are
that were found so far. A helper that one template found is found for every later one.

A found helper is always a known one; the registry carries the proof.
-/

namespace Stache

/-- What the jobs of a build know about helpers. -/
structure Registry where
  /-- The names that are helpers. -/
  known : Std.ExtTreeSet String := ∅
  /-- Where the found ones are. -/
  found : Std.ExtTreeMap String Path := ∅
  /-- The directories of helpers have been scanned. -/
  scanned : Bool := false
  /-- Found helpers are known. -/
  known_of_found : ∀ name, name ∈ found → name ∈ known := by simp

namespace Registry

/-- Makes a name known. -/
def insert (registry : Registry) (name : String) : Registry :=
  { registry with
    known := registry.known.insert name
    known_of_found := fun other h => by
      have := registry.known_of_found other h
      simp [Std.ExtTreeSet.mem_insert, this] }

/-- Records where a helper is. A path that was recorded before is replaced. -/
def record (registry : Registry) (name : String) (path : Path) : Registry :=
  { registry with
    known := registry.known.insert name
    found := registry.found.insert name path
    known_of_found := fun other h => by
      rw [Std.ExtTreeMap.mem_insert] at h
      rw [Std.ExtTreeSet.mem_insert]
      exact h.imp_right (registry.known_of_found other) }

/-- Where a helper was found. -/
def path? (registry : Registry) (name : String) : Option Path :=
  registry.found[name]?

/-- Makes the first caller responsible for scanning the directories of helpers. -/
def claimScan (registry : Registry) : Bool × Registry :=
  (!registry.scanned, { registry with scanned := true })

end Registry

end Stache
