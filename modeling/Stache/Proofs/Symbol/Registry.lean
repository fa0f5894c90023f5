import Stache.Symbol.Registry

/-!
# What the registry knows

* `Registry.path?_record`, `Registry.mem_known_record` -- the registry after a helper was recorded, name by name;
* `Registry.known_of_path?` -- a helper that was found is known.
-/

namespace Stache

namespace Registry

theorem mem_known_record (registry : Registry) (name n : String) (path : Path) :
    n ∈ (registry.record name path).known ↔ n ∈ registry.known ∨ name = n := by
  simp [record, Std.ExtTreeSet.mem_insert, or_comm]

theorem path?_record (registry : Registry) (name n : String) (path : Path) :
    (registry.record name path).path? n = if name = n then some path else registry.path? n := by
  rw [path?, record, Std.ExtTreeMap.getElem?_insert]
  simp only [Std.LawfulEqCmp.compare_eq_iff_eq, path?]

/-- A helper that was found is known. -/
theorem known_of_path? {registry : Registry} {name : String} {path : Path}
    (h : registry.path? name = some path) : name ∈ registry.known := by
  refine registry.known_of_found name (Std.ExtTreeMap.mem_iff_isSome_getElem?.mpr ?_)
  rw [show registry.found[name]? = some path from h]
  rfl

end Registry

end Stache
