import Stache.Proofs.Search.Order
import Stache.Proofs.Symbol.Registry
import Stache.Search.HelperScan

/-!
# Which helper is recorded

The scan goes through the helper directories in the order in which a search for a helper would, and every file
that it meets is recorded under its name. A search stops at the first file, and the scan does not stop: of the
helpers of one name it is the last one that stays recorded.

* `FileTree.HelperFile` -- the helper files of a directory, each with the number of its entry;
* `SearchPlan.IsHelper` -- the helpers of a name, by the numbers of the directory and of the entry;
* `path?_recordAll` -- what is recorded for a name is what was recorded for it last;
* `SearchPlan.scan_last` -- **the scan records the helper of the greatest pair of numbers**, and this is the
  first one exactly if both are the same file.
-/

namespace Stache

namespace FileTree

variable (tree : FileTree) (extension : String) (dir : Path)

/-! ## 1. The files of a directory -/

/-- The helper files of a directory, by the numbers of their entries: the name of the entry ends with a dot and
    the extension, and the entry is a file. Behind a separator in the extension stands what is looked for below
    the entry. -/
inductive HelperFile : Nat → Path → Prop
  /-- An entry. -/
  | entry {place path : Path} {first : List Char} {deeper : List (List Char)} {entries : List String}
    {number : Nat} {name : String} {stem : List Char} :
    tree.reach? dir = some place → extension.toList.splitOn '/' = first :: deeper →
    tree.list place = .ok entries → entries[number]? = some name → name.toList = stem ++ '.' :: first →
    tree.walk? (partFrom place ⟨name⟩) deeper = some path → tree.hasFile path = true →
    HelperFile number path

/-- **The helper files of a directory, in the order of its entries.** -/
theorem helperFiles_schedule :
    Schedule (fun i j : Nat => i < j) (tree.HelperFile extension dir) (tree.helperFiles extension dir) := by
  have hnone (h : ∀ number path, ¬ tree.HelperFile extension dir number path) :
      Schedule (fun i j : Nat => i < j) (tree.HelperFile extension dir) [] :=
    (Schedule.ofList []).congr fun number path => ⟨nofun, fun hf => absurd hf (h number path)⟩
  unfold helperFiles
  split
  · rename_i place first deeper hplace hextension
    unfold matchingEntries
    cases hlist : tree.list place with
    | error error =>
      refine hnone fun number path hf => ?_
      cases hf with
      | entry hp _ hl =>
        rw [hplace] at hp
        cases hp
        rw [hlist] at hl
        cases hl
    | ok entries =>
      refine (((((Schedule.ofList entries).filter _).map _).filterMap _).filter _).congr fun number path => ?_
      simp only [Option.isSome_iff_exists, Text.beforeMark?_eq_some]
      constructor
      · rintro ⟨⟨_, ⟨name, ⟨hname, stem, hstem⟩, rfl⟩, hwalk⟩, hfile⟩
        exact .entry hplace hextension hlist hname hstem hwalk hfile
      · intro hf
        cases hf with
        | entry hp he hl hname hstem hwalk hfile =>
          rw [hplace] at hp
          cases hp
          rw [hextension] at he
          cases he
          rw [hlist] at hl
          cases hl
          exact ⟨⟨_, ⟨_, ⟨hname, _, hstem⟩, rfl⟩, hwalk⟩, hfile⟩
  · rename_i hno
    refine hnone fun number path hf => ?_
    cases hf with
    | entry hp he => exact hno _ _ _ hp he

end FileTree

/-! ## 2. What is recorded -/

section Recorded

variable {helpers : List (String × Path)} {registry : Registry} {name : String}

/-- The path of a helper, if it has the name. -/
def pathFor? (name : String) (helper : String × Path) : Option Path :=
  if helper.1 = name then some helper.2 else none

theorem pathFor?_eq_some {helper : String × Path} {path : Path} :
    pathFor? name helper = some path ↔ helper = (name, path) := by
  unfold pathFor?
  rw [Option.ite_none_right_eq_some, Option.some.injEq, Prod.ext_iff]

/-- **What is recorded for a name is what was recorded for it last**, if anything was. -/
theorem path?_recordAll :
    (recordAll helpers registry).path? name =
      (helpers.filterMap (pathFor? name)).getLast?.or (registry.path? name) := by
  induction helpers generalizing registry with
  | nil => rfl
  | cons helper helpers ih =>
    have hrecord : recordAll (helper :: helpers) registry =
        recordAll helpers (registry.record helper.1 helper.2) := rfl
    rw [hrecord, ih, Registry.path?_record, List.filterMap_cons]
    unfold pathFor?
    by_cases hname : helper.1 = name
    · rw [if_pos hname, if_pos hname, List.getLast?_cons]
      cases (helpers.filterMap _).getLast? <;> rfl
    · rw [if_neg hname, if_neg hname]

theorem mem_known_recordAll :
    name ∈ (recordAll helpers registry).known ↔ (∃ path, (name, path) ∈ helpers) ∨ name ∈ registry.known := by
  induction helpers generalizing registry with
  | nil => simp [recordAll]
  | cons helper helpers ih =>
    have hrecord : recordAll (helper :: helpers) registry =
        recordAll helpers (registry.record helper.1 helper.2) := rfl
    have hfirst : (∃ path, (name, path) = helper) ↔ helper.1 = name := by
      constructor
      · rintro ⟨_, rfl⟩
        rfl
      · rintro rfl
        exact ⟨helper.2, rfl⟩
    simp only [hrecord, ih, Registry.mem_known_record, List.mem_cons, exists_or, hfirst]
    tauto

end Recorded

namespace SearchPlan

variable (plan : SearchPlan) (tree : FileTree) (name : String)

/-! ## 3. The helpers of a name -/

/-- The helpers of a name, by two numbers: that of the directory, among those of a search for helpers behind
    the template's own, and that of the entry in it. -/
def IsHelper (key : Nat × Nat) (path : Path) : Prop :=
  ∃ dir, plan.IsContext .helper (key.1 + 1) dir ∧
    tree.HelperFile plan.config.helperExtension dir key.2 path ∧ path.fileStem? = some name

/-- The helper files of a name, in order. -/
def helpersNamed : List Path :=
  (plan.config.helperDirs.flatMap (tree.helperFiles plan.config.helperExtension)).filter
    fun path => path.fileStem? = some name

theorem isContext_helper {number : Nat} {dir : Path} :
    plan.IsContext .helper (number + 1) dir ↔ plan.config.helperDirs[number]? = some dir := by
  constructor
  · intro h
    cases h with
    | ofHelpers _ h => exact h
  · exact .ofHelpers (by decide)

theorem helpersNamed_schedule : Schedule Earlier (plan.IsHelper tree name) (plan.helpersNamed tree name) := by
  refine (((Schedule.ofList plan.config.helperDirs).flatMap
    (tree.helperFiles_schedule plan.config.helperExtension)).filter _).congr fun key path => ?_
  simp only [IsHelper, isContext_helper, decide_eq_true_eq]
  constructor
  · rintro ⟨⟨dir, hdir, hfile⟩, hname⟩
    exact ⟨dir, hdir, hfile, hname⟩
  · rintro ⟨dir, hdir, hfile, hname⟩
    exact ⟨⟨dir, hdir, hfile⟩, hname⟩

/-- The first helper of a name. -/
def FirstHelper (path : Path) : Prop :=
  ∃ key, plan.IsHelper tree name key path ∧
    ∀ earlier other, Earlier earlier key → ¬ plan.IsHelper tree name earlier other

/-- The last helper of a name. -/
def LastHelper (path : Path) : Prop :=
  ∃ key, plan.IsHelper tree name key path ∧
    ∀ later other, Earlier key later → ¬ plan.IsHelper tree name later other

variable {plan tree name} in
theorem head?_helpersNamed {path : Path} :
    (plan.helpersNamed tree name).head? = some path ↔ plan.FirstHelper tree name path :=
  (plan.helpersNamed_schedule tree name).head?_eq_some

variable {plan tree name} in
theorem getLast?_helpersNamed {path : Path} :
    (plan.helpersNamed tree name).getLast? = some path ↔ plan.LastHelper tree name path :=
  (plan.helpersNamed_schedule tree name).getLast?_eq_some

theorem filterMap_helpersIn :
    (helpersIn tree plan.config.helperExtension plan.config.helperDirs).filterMap (pathFor? name) =
      plan.helpersNamed tree name := by
  unfold helpersIn helpersNamed
  rw [List.filterMap_filterMap, ← List.filterMap_eq_filter]
  refine congrArg (List.filterMap · _) (funext fun path => ?_)
  unfold pathFor?
  cases hstem : path.fileStem? with
  | none => simp [Option.guard, hstem]
  | some stem => by_cases hname : stem = name <;> simp [Option.guard, hstem, hname]

/-- What is known of helpers after a scan. -/
def scanned (registry : Registry) (journal : Journal) : Registry :=
  (scanHelpers tree plan.config.helperExtension plan.config.helperDirs registry journal).2.1

theorem scanned_eq (journal : Journal) :
    ∃ registry : Registry, registry.known = ∅ ∧ registry.found = ∅ ∧ plan.scanned tree {} journal =
      recordAll (helpersIn tree plan.config.helperExtension plan.config.helperDirs) registry := by
  unfold scanned scanHelpers
  cases plan.config.helperDirs with
  | nil => exact ⟨{}, rfl, rfl, rfl⟩
  | cons dir dirs => exact ⟨{ scanned := true }, rfl, rfl, rfl⟩

theorem path?_scanned (journal : Journal) :
    (plan.scanned tree {} journal).path? name = (plan.helpersNamed tree name).getLast? := by
  obtain ⟨registry, _, hfound, hscanned⟩ := plan.scanned_eq tree journal
  have hnone : registry.path? name = none := by
    rw [Registry.path?, hfound]
    exact Std.ExtTreeMap.getElem?_empty
  rw [hscanned, path?_recordAll, filterMap_helpersIn, hnone, Option.or_none]

theorem mem_known_scanned (journal : Journal) :
    name ∈ (plan.scanned tree {} journal).known ↔ plan.helpersNamed tree name ≠ [] := by
  obtain ⟨registry, hknown, _, hscanned⟩ := plan.scanned_eq tree journal
  have hnot : name ∉ registry.known := by
    rw [hknown]
    exact Std.ExtTreeSet.not_mem_empty
  simp only [hscanned, mem_known_recordAll, hnot, or_false, ← filterMap_helpersIn, ne_eq,
    List.eq_nil_iff_forall_not_mem, not_forall, not_not, List.mem_filterMap, pathFor?_eq_some, exists_eq_right]

/-- **The scan records the last helper of a name.** In a build without helpers, after the scan the names that are
    known are those of which the directories have a helper. Recorded for a name is its last helper. So the first
    helper of a name is recorded if and only if it is the same file as the last one. -/
theorem scan_last (journal : Journal) :
    (name ∈ (plan.scanned tree {} journal).known ↔ ∃ path, plan.FirstHelper tree name path) ∧
    (∀ path, (plan.scanned tree {} journal).path? name = some path ↔ plan.LastHelper tree name path) ∧
    ((∀ path, plan.FirstHelper tree name path → (plan.scanned tree {} journal).path? name = some path) ↔
      ∀ first last, plan.FirstHelper tree name first → plan.LastHelper tree name last → first = last) := by
  have hlast (path : Path) : (plan.scanned tree {} journal).path? name = some path ↔
      plan.LastHelper tree name path := by
    rw [path?_scanned, getLast?_helpersNamed]
  refine ⟨?_, hlast, ?_⟩
  · rw [mem_known_scanned, ← List.isSome_head?, Option.isSome_iff_exists]
    simp only [head?_helpersNamed]
  constructor
  · intro h first last hf hl
    rw [← hlast, h first hf] at hl
    exact Option.some.inj hl
  · intro h path hf
    have hne : plan.helpersNamed tree name ≠ [] := fun e => by
      rw [← head?_helpersNamed, e] at hf
      cases hf
    rw [hlast, ← getLast?_helpersNamed, List.getLast?_eq_some_getLast hne]
    exact congrArg some (h path _ hf (getLast?_helpersNamed.mp (List.getLast?_eq_some_getLast hne))).symm

/-- Two directories with a helper of one name. -/
def doubled : FileTree :=
  (({} : FileTree).plant ["h1", "a.js"] (.file (.ofText "") 0)).plant ["h2", "a.js"] (.file (.ofText "") 0)

/-- The search of a template beside the directories. -/
def besides : SearchPlan :=
  searchPlan { helperDirs := [⟨"h1"⟩, ⟨"h2"⟩] } doubled ⟨"."⟩

/-- **The scan and the search disagree** about a helper that two directories have. -/
theorem scan_records_later : besides.FirstHelper doubled "a" ⟨"h1/a.js"⟩ ∧
    (besides.search .helper "a" []).1 = some ⟨"h1/a.js"⟩ ∧
    (besides.scanned doubled {} []).path? "a" = some ⟨"h2/a.js"⟩ := by
  rw [← head?_helpersNamed]
  decide +kernel

end SearchPlan

end Stache
