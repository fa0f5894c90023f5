import Stache.Journal

/-!
# Probes

A probe asks whether a module exists, as seen from a directory. Whoever answers may know how many probes
were made before; the search only needs the answers.
-/

namespace Stache

/-- Why a probe does not find a module. -/
inductive ProbeError where
  /-- There is none. -/
  | notFound (base : Path) (request : String)
  /-- A candidate cannot be looked at. -/
  | inaccessible (path : Path) (reason : String)
  deriving DecidableEq, Repr

/-- The wording of a failed probe. -/
def ProbeError.message : ProbeError → String
  | .notFound base request => "Cannot resolve '" ++ request ++ "' in " ++ base.text
  | .inaccessible path reason => "Cannot access " ++ path.text ++ ": " ++ reason

/-- Answers the probe that comes after so many others: the module behind a request, as seen from a
    directory. -/
abbrev ModuleResolver :=
  (made : Nat) → (base : Path) → (request : String) → Except ProbeError Path

/-- Makes a probe and writes it down. -/
def ModuleResolver.probe (resolver : ModuleResolver) (base : Path) (request : String)
    (journal : Journal) : Except ProbeError Path × Journal :=
  let result := resolver journal.probeCount base request
  (result, .probed ⟨base, request, result.toOption⟩ :: journal)

end Stache
