import Stache.Job.Load
import Stache.Proofs.Files.Resolved
import Stache.Proofs.Outcome
import Stache.Proofs.Search.Module
import Stache.Proofs.Search.Symbol
import Stache.Proofs.Symbol.Dependencies
import Stache.Proofs.Text.Marks

/-!
# Suggestions that can be followed

A suggestion is the name of an entry of a directory that was listed. The search for it looks at the entry, too:
with the same extension, in the same directory. It finds a file then, unless the entry is none, or is excluded,
or the request for the name leads elsewhere.

* `SearchPlan.Suggests`, `SearchPlan.suggests_of_mem` -- **what a suggestion comes from**;
* `Config.SameWay`, `normalize_request` -- the request leads to the entry, up to spelling;
* `SearchPlan.suggestions_found` -- **what is suggested can be found, if it is a file that is not excluded and
  the request leads there**;
* `suggestions_lost` -- suggestions that lead nowhere, one for each of the conditions.
-/

namespace Stache

namespace SearchPlan

/-! ## 1. What is suggested -/

/-- The name of a partial in a subdirectory. -/
def within (subdir stem : String) : String :=
  if subdir = "" then stem else subdir ++ "/" ++ stem

/-- The name is suggested for another one: an entry that is listed in a search directory has this name, with an
    extension of partials. -/
structure Suggests (plan : SearchPlan) (tree : FileTree) (name : String) (context : Path)
    (extension suggestion : String) : Prop where
  searched : context ∈ plan.contexts .partialTemplate
  tried : extension ∈ plan.config.extensions
  ne_empty : extension ≠ ""
  entry : ∃ entries stem, tree.list (listed (subdirOf name) context) = .ok entries ∧
    stem ++ extension ∈ entries ∧ suggestion = within (subdirOf name) stem
  ne : suggestion ≠ name

/-- The name of an entry is what stands before one of the extensions. -/
theorem stemOf?_eq_some {extensions : List String} {entry stem : String}
    (h : stemOf? extensions entry = some stem) :
    ∃ extension ∈ extensions, extension ≠ "" ∧ stem ++ extension = entry := by
  obtain ⟨extension, hm, hbefore⟩ := List.exists_of_findSome?_eq_some h
  obtain ⟨hextension, hne⟩ := List.mem_filter.mp hm
  obtain ⟨before, hcut, rfl⟩ := Option.map_eq_some_iff.mp hbefore
  refine ⟨extension, hextension, by simpa using hne, ?_⟩
  rw [← String.toList_inj, String.toList_append, String.toList_ofList]
  exact (Text.beforeMark?_eq_some.mp hcut).symm

variable {plan : SearchPlan} {tree : FileTree} {name suggestion : String}

theorem mem_partialsIn {subdir : String} {context : Path} (h : suggestion ∈ plan.partialsIn tree subdir context) :
    ∃ entries stem, ∃ extension ∈ plan.config.extensions, extension ≠ "" ∧
      tree.list (listed subdir context) = .ok entries ∧ stem ++ extension ∈ entries ∧
      suggestion = within subdir stem := by
  unfold partialsIn at h
  cases hlist : tree.list (listed subdir context) with
  | error error =>
    rw [hlist] at h
    cases h
  | ok entries =>
    rw [hlist] at h
    obtain ⟨stem, hstem, rfl⟩ := List.mem_map.mp h
    obtain ⟨entry, hentry, hread⟩ := List.mem_filterMap.mp hstem
    obtain ⟨extension, hextension, hne, rfl⟩ := stemOf?_eq_some hread
    exact ⟨entries, stem, extension, hextension, hne, rfl, hentry, rfl⟩

/-- **What a suggestion comes from.** -/
theorem suggests_of_mem (h : suggestion ∈ plan.suggestions tree name) :
    ∃ context extension, plan.Suggests tree name context extension suggestion := by
  unfold suggestions at h
  dsimp only at h
  obtain ⟨scored, htaken, rfl⟩ := List.mem_map.mp h
  have hkept := mem_of_mem_eraseRepsBy (List.mem_of_mem_take htaken)
  rw [List.mem_mergeSort] at hkept
  obtain ⟨other, hother, rfl⟩ := List.mem_map.mp (List.mem_filter.mp hkept).1
  obtain ⟨havailable, hne⟩ := List.mem_filter.mp hother
  obtain ⟨context, hcontext, hpartial⟩ := List.mem_flatMap.mp havailable
  obtain ⟨entries, stem, extension, hextension, hempty, hlist, hentry, hname⟩ := mem_partialsIn hpartial
  exact ⟨context, extension, hcontext, hextension, hempty, ⟨entries, stem, hlist, hentry, hname⟩,
    by simpa using hne⟩

end SearchPlan

/-! ## 2. The request -/

/-- A text in front of paths that leads nowhere. -/
structure Stays (text : String) : Prop where
  relative : Path.isAbsolute ⟨text⟩ = false
  closed : text.toList.getLast? = some '/'
  nothing : Path.counted (Path.parts ⟨text⟩) = []

/-- The request for the name leads where the name leads: the name is no request itself, and what is put before
    it leads nowhere. -/
structure Config.SameWay (config : Config) (name extension : String) : Prop where
  logical : name.toList.head? ≠ some '$'
  here : config.rootRelative = "" ∨
    Stays config.rootRelative ∧ Path.isAbsolute ⟨name ++ extension⟩ = false

/-- The name stands behind what is put before it. -/
theorem NameReference.requestFor_partial {name : String} (h : name.toList.head? ≠ some '$') (rootRelative : String)
    (hasHelperDirs : Bool) :
    (ofName name).requestFor .partialTemplate rootRelative hasHelperDirs = rootRelative ++ name := by
  have hlogical : ofName name = .logical name := by
    unfold ofName
    split
    · rename_i hdollar
      rw [hdollar] at h
      exact absurd rfl h
    · rfl
  rw [hlogical]
  rfl

namespace Stays

variable {text : String}

/-- Behind such a text there are the components of the path. -/
theorem counted_append (h : Stays text) (path : String) :
    Path.isAbsolute ⟨text ++ path⟩ = false ∧
      Path.counted (Path.parts ⟨text ++ path⟩) = Path.counted (Path.parts ⟨path⟩) := by
  obtain ⟨front, hfront⟩ := List.getLast?_eq_some_iff.mp h.closed
  have hne : text.toList ≠ [] := by simp [hfront]
  have hnothing := h.nothing
  unfold Path.parts at hnothing ⊢
  rw [hfront, Path.splitOn_append_slash, Path.counted_append] at hnothing
  refine ⟨(Path.isAbsolute_append (p := ⟨text⟩) hne path).trans h.relative, ?_⟩
  rw [String.toList_append, hfront, List.append_assoc]
  show Path.counted ((front ++ '/' :: path.toList).splitOn '/') = _
  rw [Path.splitOn_append_slash, Path.counted_append, (List.append_eq_nil_iff.mp hnothing).1, List.nil_append]

end Stays

namespace SearchPlan

variable {name extension : String}

/-- **The request for a name leads to the entry.** -/
theorem normalize_request (plan : SearchPlan) (h : plan.config.SameWay name extension) (context : Path) :
    (context.join ⟨plan.requestFor .partialTemplate name ++ extension⟩).normalize =
      (context.join ⟨name ++ extension⟩).normalize := by
  unfold requestFor
  rw [NameReference.requestFor_partial h.logical]
  rcases h.here with hempty | ⟨hstays, hrelative⟩
  · rw [hempty, String.empty_append]
  · obtain ⟨habsolute, hcounted⟩ := hstays.counted_append (name ++ extension)
    rw [String.append_assoc, Path.normalize_eq_iff, Path.stack_join _ habsolute, Path.stack_join _ hrelative,
      hcounted]

end SearchPlan

/-! ## 3. The search -/

/-- What stands at the first place is found. -/
theorem FileTree.resolveModule_of_hasFile {tree : FileTree} {context : Path} {request : String}
    {directories : List String} (h : tree.hasFile (context.join ⟨request⟩).normalize = true) :
    tree.resolveModule { directories } context request = .ok (context.join ⟨request⟩).normalize := by
  obtain ⟨entry, hentry, hfile⟩ := hasFile_iff.mp h
  have hview : tree.view.probeFile (context.join ⟨request⟩).normalize = .ok true := by
    rw [FileView.probeFile_eq_true]
    unfold view
    rw [hentry]
    exact congrArg Except.ok hfile
  have hroots : ∃ more, ModuleRules.roots { directories } context request =
      (context.join ⟨request⟩).normalize :: more := by
    unfold ModuleRules.roots
    split
    · exact ⟨_, rfl⟩
    · exact ⟨_, rfl⟩
  obtain ⟨more, hroots⟩ := hroots
  refine FileView.resolveModule_eq_firstFile?.mpr ?_
  unfold ModuleRules.candidates ModuleRules.candidatesAt
  rw [hroots, List.flatMap_cons]
  refine FileView.firstFile?_cons.mpr (.inl ?_)
  dsimp only
  rw [String.append_empty]
  exact ⟨hview, rfl⟩

namespace SearchPlan

variable {config : Config} {tree : FileTree} {dir : Path} {name suggestion : String}

/-- **What is suggested, and what of it can be found.** A suggestion is the name of an entry of a directory that
    was listed. If the entry is a file that is not excluded, and the request for the name leads to it, then the
    name is found. -/
theorem suggestions_found (h : suggestion ∈ (searchPlan config tree dir).suggestions tree name) :
    (∃ context extension, (searchPlan config tree dir).Suggests tree name context extension suggestion) ∧
    ∀ context extension, (searchPlan config tree dir).Suggests tree name context extension suggestion →
      config.SameWay suggestion extension → tree.hasFile (context.join ⟨suggestion ++ extension⟩) = true →
      config.excludes (context.join ⟨suggestion ++ extension⟩).normalize = false → ∀ journal,
        ((searchPlan config tree dir).search .partialTemplate suggestion journal).1.isSome = true := by
  refine ⟨suggests_of_mem h, fun context extension hsuggests hway hfile hkept journal => ?_⟩
  rw [isSome_search, finds_of_steady _ (fun _ => rfl)]
  have hrequest := normalize_request (searchPlan config tree dir) hway context
  refine ⟨_, List.mem_map_of_mem hsuggests.tried, context, hsuggests.searched, _,
    FileTree.resolveModule_of_hasFile ?_, ?_⟩
  · rw [hrequest]
    exact FileTree.hasFile_normalize hfile
  · rw [hrequest]
    exact hkept

/-- The tree with one entry, in a directory. -/
def holding (dir name : String) (entry : Entry) : FileTree :=
  (({} : FileTree).insertAt [dir] (.dir 0)).insertAt [dir, name] entry

/-- A tree with one partial. -/
def oneHeader : FileTree :=
  holding "v" "header.hbs" (.file (.ofText "") 0)

/-- There the name that is suggested for a misspelled one is found. -/
theorem suggestions_found_header :
    "header" ∈ (searchPlan {} oneHeader ⟨"v"⟩).suggestions oneHeader "headr" ∧
    ∀ journal, ((searchPlan {} oneHeader ⟨"v"⟩).search .partialTemplate "header" journal).1.isSome = true := by
  have hsuggested : "header" ∈ (searchPlan {} oneHeader ⟨"v"⟩).suggestions oneHeader "headr" := by
    decide +kernel
  have hlisted : oneHeader.list ⟨"v"⟩ = .ok ["header.hbs"] := eq_ok_of_toOption (by decide +kernel)
  have hsuggests : (searchPlan {} oneHeader ⟨"v"⟩).Suggests oneHeader "headr" ⟨"v"⟩ ".hbs" "header" :=
    ⟨List.mem_cons_self .., by decide, by decide, ⟨_, "header", hlisted, by decide, rfl⟩, by decide⟩
  have hway : Config.SameWay {} "header" ".hbs" :=
    ⟨by decide, .inr ⟨⟨by decide, by decide, by decide⟩, by decide⟩⟩
  exact ⟨hsuggested, (suggestions_found hsuggested).2 ⟨"v"⟩ ".hbs" hsuggests hway (by decide +kernel) rfl⟩

/-- A name is not found, and neither is the one that is suggested for it. -/
def Lost (config : Config) (tree : FileTree) (dir : Path) (name suggestion : String) : Prop :=
  ((searchPlan config tree dir).search .partialTemplate name []).1 = none ∧
    suggestion ∈ (searchPlan config tree dir).suggestions tree name ∧
    ((searchPlan config tree dir).search .partialTemplate suggestion []).1 = none

/-- **Suggestions that lead nowhere**: a directory, a file that is excluded, a file that is looked for elsewhere,
    one whose name is taken for a request, and one whose path is not taken for an absolute one. -/
theorem suggestions_lost :
    Lost {} (holding "v" "header.hbs" (.dir 0)) ⟨"v"⟩ "headr" "header" ∧
    Lost { extensions := [".hbs"], exclude := some ⟨"b", .one (.single 'b')⟩ }
      (holding "v" "ab.hbs" (.file (.ofText "") 0)) ⟨"v"⟩ "aa" "ab" ∧
    Lost { extensions := [".hbs"], rootRelative := "./p/" }
      (holding "v" "ab.hbs" (.file (.ofText "") 0)) ⟨"v"⟩ "aa" "ab" ∧
    Lost { extensions := [".hbs"], moduleDirectories := [] }
      (holding "v" "$b.hbs" (.file (.ofText "") 0)) ⟨"v"⟩ "$a" "$b" ∧
    Lost { extensions := [".hbs"] } (holding "a" "b.hbs" (.file (.ofText "") 0)) ⟨"v"⟩ "/a/a" "/a/b" := by
  unfold Lost
  decide +kernel

end SearchPlan

end Stache
