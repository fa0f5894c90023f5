import Stache.Proofs.Job.Loads
import Stache.Proofs.Job.Missing
import Stache.Proofs.Job.Unstored

/-!
# What modules load

The code of a template stands in its module, so the module loads what the code loads. A load that compiles
its template lists the files that its module loads for names.

* `LoadsFile` -- the load of a file stands in a text;
* `ListsLoads` -- what a module loads for names is listed;
* `Config.module_eq_blank` -- only the module of no code is blank;
* `load_listed` -- **a load that compiles its template** lists what its module loads;
* `load_callsFound` -- the load of a template that calls a helper that was found before;
* `oneHelper`, `withHelper` -- files with one helper, which the scan of its directory finds.
-/

namespace Stache

/-! ## 1. Modules -/

/-- The load of the file stands in the text, with its request tidied. -/
def LoadsFile (text : String) (path : Path) : Prop :=
  ∃ front back, text = front ++ loadText (Text.tidy path.storageForm) ++ back

/-- The code of a template stands in its module. -/
theorem Config.module_eq (config : Config) {code : String} (hcode : code ≠ "") (template : Path) :
    ∃ front back, config.module code template = front ++ code ++ back := by
  have assoc (front code a b c : String) :
      front ++ code ++ a ++ b ++ c = front ++ code ++ (a ++ b ++ c) := by
    simp only [String.append_assoc]
  unfold Config.module
  rw [if_neg hcode]
  exact ⟨_, _, assoc ..⟩

/-- A module is blank exactly if there is no code. -/
theorem Config.module_eq_blank (config : Config) (code : String) (template : Path) :
    config.module code template = blankModule ↔ code = "" := by
  refine ⟨fun h => ?_, fun h => if_pos h⟩
  by_contra hcode
  have hq : 'q' ∈ blankModule.toList := by
    have hload : 'q' ∈ "var Handlebars = require(".toList := by decide
    rw [← h, Config.module, if_neg hcode]
    simp only [String.toList_append, List.mem_append, hload, true_or]
  exact absurd hq (by decide)

/-- The module of a template loads what its code loads. -/
theorem LoadStands.loadsFile {path : Path} {raw code : String} (h : LoadStands path raw code)
    (config : Config) (template : Path) : LoadsFile (config.module code template) path := by
  obtain ⟨front, back, _, hcode, _⟩ := h
  have hne : code ≠ "" := by
    rintro rfl
    have hlength := congrArg String.length hcode
    have hrequire : "require(".length = 8 := by decide
    rw [String.length_append, String.length_append, loadText, String.length_append, String.length_append,
      hrequire, String.length_empty] at hlength
    omega
  obtain ⟨first, last, hmodule⟩ := config.module_eq hne template
  refine ⟨first ++ Text.compact front, Text.compact back ++ last, ?_⟩
  rw [hmodule, hcode]
  simp only [String.append_assoc]

/-- The module of an empty template loads nothing. -/
theorem not_loadsFile_blank (path : Path) : ¬ LoadsFile blankModule path := by
  rintro ⟨front, back, h⟩
  have hq : 'q' ∈ blankModule.toList := by
    have hload : 'q' ∈ "require(".toList := by decide
    rw [h, loadText, String.toList_append, String.toList_append, String.toList_append,
      String.toList_append]
    simp only [List.mem_append, hload, true_or, or_true]
  exact absurd hq (by decide)

/-! ## 2. Loads -/

/-- What the module loads for names is listed: wherever the compilation is answered with code that a name
    refers to something, the module loads that file, and its components are those of a dependency. -/
def ListsLoads (loaded : Loaded) (table : SymbolTable) (hints : Hints) (inline : String → Bool)
    (source : String) : Prop :=
  ∀ kind base n, .symbol kind base n ∈ (compilation hints source).asked (table.tell inline) () →
    ∀ text, (table.tell inline (.symbol kind base n) ()).1 = some text →
      ∃ path, IsLoad table n path kind text ∧ LoadsFile loaded.text path ∧
        ∃ listed ∈ loaded.dependencies, listed.components = path.components

variable {config : Config} {source : String} {template : Path} {build later : Build} {loaded : Loaded}

/-- **A load that compiles its template lists what its module loads**, and the module of an empty template
    loads nothing. -/
theorem load_listed (h : (load config source template).exec build = (.ok loaded, later))
    (hcompiled : loaded.fromCache = false) :
    ∃ seeded settled p, build.Seeded config seeded ∧
      (loadJob config template seeded.tree).settle source seeded.registry seeded.journal =
        (.ok settled, p) ∧
      loaded = ⟨config.module settled.code template, settled.table.dependencies, settled.passes, false⟩ ∧
      (source = "" → loaded.text = blankModule) ∧
      (source ≠ "" → ListsLoads loaded settled.table ⟨config.knownHelpersOnly, p.registry.known⟩
        config.loadsInline source) := by
  obtain ⟨_, seeded, settled, p, hseeds, hsettle, _, _, rfl⟩ := load_compiled h hcompiled
  refine ⟨seeded, settled, p, hseeds, hsettle, rfl, ?_, fun hs => ?_⟩
  · rintro rfl
    exact if_pos (Job.code_of_empty hsettle)
  · obtain ⟨raw, _, _, hloads⟩ := Job.loads_of_settle hs hsettle
    intro kind base n hasked text htext
    obtain ⟨path, hload, hstands⟩ := hloads kind base n hasked text htext
    exact ⟨path, hload, hstands.loadsFile config template, hload.listed⟩

/-! ## 3. A helper that was found before -/

namespace Job

variable {plan : SearchPlan} {name : String} {suggest : String → List String} {registry : Registry}
  {journal : Journal} {path : Path}

theorem outline_callsFound {p : Progress} (hm : "m" ∈ p.registry.known) :
    passOutline (hintsIn plan p) "\x7b\x7bm n\x7d\x7d" =
      ⟨[helperReference "m", .symbol .context .context "n"], none⟩ := by
  rw [passOutline, if_neg (by decide), outline_of_calleeKind (calleeKind_known hm)]

/-- The empty template settles. -/
theorem settles_empty (name : String) (suggest : String → List String) (registry : Registry)
    (journal : Journal) :
    ∃ settled p, (ofTemplate plan name suggest).settle "" registry journal = (.ok settled, p) := by
  refine settles_of_unasked name suggest rfl fun n hn => ?_
  rw [entries_ofTemplate, passOutline, if_pos rfl] at hn
  cases hn

/-- So does the template that is one letter. -/
theorem settles_content (name : String) (suggest : String → List String) (registry : Registry)
    (journal : Journal) :
    ∃ settled p, (ofTemplate plan name suggest).settle "x" registry journal = (.ok settled, p) := by
  refine settles_of_unasked name suggest ?_ fun n hn => ?_
  · rw [passOutline, if_neg (by decide), outline_content]
  · rw [entries_ofTemplate, passOutline, if_neg (by decide), outline_content] at hn
    obtain ⟨_, hr, he⟩ := List.mem_filterMap.mp hn
    cases List.mem_singleton.mp hr
    cases he

/-- The template that calls a helper with a member of the context settles if the helper was found before. -/
theorem settles_callsFound (name : String) (suggest : String → List String)
    (hf : registry.path? "m" = some path) (journal : Journal) :
    ∃ settled p, (ofTemplate plan name suggest).settle "\x7b\x7bm n\x7d\x7d" registry journal =
      (.ok settled, p) := by
  have houtline := @outline_callsFound plan { registry, journal } (Registry.known_of_path? hf)
  refine settles_of_unasked name suggest (congrArg Outline.fault houtline) fun n hn => ?_
  rw [entries_ofTemplate, houtline] at hn
  obtain ⟨reference, hr, he⟩ := List.mem_filterMap.mp hn
  obtain ⟨_, rfl, _⟩ := Reference.eq_of_symbol?_partial he
  simp [helperReference] at hr

/-- It asks about the helper. -/
theorem asked_callsFound {settled : Settled} {p : Progress} (hf : registry.path? "m" = some path)
    (h : (ofTemplate plan name suggest).settle "\x7b\x7bm n\x7d\x7d" registry journal =
      (.ok settled, p)) :
    helperReference "m" ∈ (compilationOutline ⟨plan.config.knownHelpersOnly, p.registry.known⟩
      "\x7b\x7bm n\x7d\x7d").references := by
  obtain ⟨_, _, _, ha⟩ := accounts_of_settle h
  have hknown : "m" ∈ p.registry.known := (ha.known "m").mpr (.inl (Registry.known_of_path? hf))
  rw [outline_of_calleeKind (calleeKind_known hknown)]
  exact List.mem_cons_self

/-- The helper stays where it was found. -/
theorem found_callsFound {settled : Settled} {p : Progress} (hf : registry.path? "m" = some path)
    (h : (ofTemplate plan name suggest).settle "\x7b\x7bm n\x7d\x7d" registry journal =
      (.ok settled, p)) :
    settled.table.path? .helper "m" = some path ∧ p.registry.path? "m" = some path := by
  refine given_of_settle h ?_ hf
  rw [entries_ofTemplate, passOutline, if_neg (by decide)]
  exact List.mem_filterMap.mpr ⟨_, asked_callsFound hf h, rfl⟩

end Job

/-- **The load of the template that calls a helper with a member of the context**: if the helper was found
    before, the template is compiled; its module loads the helper from there, and the helper stays there. -/
theorem load_callsFound {missed : Build}
    (hmissed : (storedModule? config template).exec build = (.ok none, missed))
    (hruntime : config.runtime = none) {path : Path}
    (hf : (seededRegistry config build.tree build.registry).path? "m" = some path)
    (hstores : ∀ text, ∃ tree, storeModule config template text build.tree = (.ok ⟨⟩, tree)) :
    ∃ loaded later, (load config "\x7b\x7bm n\x7d\x7d" template).exec build = (.ok loaded, later) ∧
      loaded.fromCache = false ∧ LoadsFile loaded.text path ∧
      (∃ listed ∈ loaded.dependencies, listed.components = path.components) ∧
      later.registry.path? "m" = some path := by
  have hs : "\x7b\x7bm n\x7d\x7d" ≠ "" := by decide
  obtain ⟨loaded, later, hload, hcompiled⟩ := load_of_settles hmissed hruntime
    (fun journal => Job.settles_callsFound _ _ hf journal) hstores
  obtain ⟨_, seeded, settled, p, hseeds, hsettle, _, hregistry, rfl⟩ := load_compiled hload hcompiled
  rw [← hseeds.registry] at hf
  obtain ⟨htable, hstays⟩ := Job.found_callsFound hf hsettle
  obtain ⟨_, _, _, hloads⟩ := Job.loads_of_settle hs hsettle
  have hasked := Job.asked_callsFound hf hsettle
  rw [← (asks_compilation _ _).asked_eq (settled.table.tell config.loadsInline) ()] at hasked
  have hcode : settled.table.codeOf config.loadsInline (helperReference "m") = some (loadHelper path) :=
    codeOf_helper htable
  obtain ⟨other, hother, hstands⟩ := hloads _ _ _ hasked _ hcode
  obtain rfl : other = path := hother.unique (.helper htable)
  exact ⟨_, later, hload, hcompiled, hstands.loadsFile config template, hother.listed,
    hregistry.symm ▸ hstays⟩

/-- **The load of the empty template** without a store returns its module. -/
theorem load_empty (hcache : config.cacheDir = none) (hruntime : config.runtime = none)
    (template : Path) (build : Build) :
    ∃ loaded later, (load config "" template).exec build = (.ok loaded, later) ∧
      loaded.text = blankModule := by
  obtain ⟨loaded, later, hload, hcompiled, _⟩ := @load_of_settles_unstored config "" template build
    hcache hruntime fun journal => Job.settles_empty _ _ _ journal
  obtain ⟨_, _, _, _, _, _, hblank, _⟩ := load_listed hload hcompiled
  exact ⟨loaded, later, hload, hblank rfl⟩

/-! ## 4. Files with one helper -/

/-- A template, a helper in a directory of helpers, and a directory for modules; all of this is older than
    what is written next. -/
def oneHelper : FileTree :=
  let template := ({} : FileTree).insertAt ["t.hbs"] (.file (.ofText "") 0)
  let helper := (template.insertAt ["h"] (.dir 0)).insertAt ["h", "m.js"] (.file (.ofText "") 0)
  { helper.insertAt ["c"] (.dir 0) with now := 1 }

/-- The configuration that knows the directory of the helper. -/
def withHelper : Config where
  helperDirs := [⟨"h"⟩]

/-- The scan finds the helper. -/
theorem found_oneHelper : (seededRegistry withHelper oneHelper {}).path? "m" = some ⟨"h/m.js"⟩ := by
  decide +kernel

end Stache
