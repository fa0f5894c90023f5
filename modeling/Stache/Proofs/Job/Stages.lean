import Stache.Proofs.Files.Stamped
import Stache.Proofs.Job.Calls
import Stache.Proofs.Job.Hits

/-!
# The stages of a load

A load of a file is not done at once: it reads its template, asks for two times, reads the entry or compiles,
makes directories, writes a file and moves it onto the entry. Between any two of these steps others may work
on the same files and with the same registry.

* `Dialogue.Reaches`, `Emitted` -- what a compilation may come to, whatever it is told on the way;
* `Stage`, `Advance` -- how far a load has come, and its steps;
* `Advance.told` -- a load that has not compiled anything yet has changed nothing;
* `loadFile_advances` -- **a load that runs alone takes these steps**.
-/

namespace Stache

/-! ## 1. What a compilation may come to -/

namespace Dialogue

variable {σ α β : Type} {allowed : Reference → Option String → Prop}

/-- The dialogue may come to the result if whoever answers gives allowed answers. To be asked twice he may
    answer in two ways. -/
inductive Reaches (allowed : Reference → Option String → Prop) : Dialogue α → α → Prop where
  | done (result : α) : Reaches allowed (.done result) result
  | ask {reference : Reference} {resume : Option String → Dialogue α} {code : Option String} {result : α}
    (h : allowed reference code) (rest : Reaches allowed (resume code) result) :
    Reaches allowed (.ask reference resume) result

/-- What a policy makes of a dialogue it may come to. -/
theorem Reaches.ofRun {policy : Reference → σ → Option String × σ}
    (h : ∀ reference state, allowed reference (policy reference state).1) {d : Dialogue α}
    {state last : σ} {result : α} (hr : d.run policy state = (.ok result, last)) : Reaches allowed d result := by
  induction d generalizing state with
  | done other =>
    cases hr
    exact .done result
  | failed error => cases hr
  | ask reference resume ih => exact .ask (h reference state) (ih _ hr)

/-- A dialogue that goes on comes to something first. -/
theorem Reaches.ofBind {d : Dialogue α} {f : α → Dialogue β} {result : β}
    (h : Reaches allowed (d >>= f) result) : ∃ first, Reaches allowed (f first) result := by
  induction d with
  | done first => exact ⟨first, h⟩
  | failed error => cases h
  | ask reference resume ih =>
    cases h with
    | ask _ rest => exact ih _ rest

end Dialogue

/-- A job may be told this about a reference, with what is known by then. -/
def MayTell (config : Config) (reference : Reference) (code : Option String) : Prop :=
  ∃ registry table, (answer registry config.loadsInline reference table).1 = code

/-- The text is a module of the template that was emitted from the source: with some helpers known, and
    whatever the compilation was told about partials and helpers on the way. -/
def Emitted (config : Config) (template : Path) (source text : String) : Prop :=
  ∃ code, text = config.module code template ∧
    (source = "" ∧ code = "" ∨ source ≠ "" ∧ ∃ known raw, code = Text.compact raw ∧
      (compilation ⟨config.knownHelpersOnly, known⟩ source).Reaches (MayTell config) raw)

section Emitted

variable {config : Config} {template : Path} {source : String}

/-- What a job settles on is emitted from its source. -/
theorem Emitted.ofSettle {tree : FileTree} {registry : Registry} {journal : Journal} {settled : Settled}
    {p : Progress}
    (h : (loadJob config template tree).settle source registry journal = (.ok settled, p)) :
    Emitted config template source (config.module settled.code template) := by
  refine ⟨settled.code, rfl, ?_⟩
  by_cases hs : source = ""
  · subst hs
    exact .inl ⟨rfl, Job.code_of_empty h⟩
  · obtain ⟨_, raw, hcode, _, hrun⟩ := Job.dialogue_of_settle hs h
    exact .inr ⟨hs, _, raw, hcode, .ofRun (fun _ table => ⟨_, table, rfl⟩) hrun⟩

/-- The blank module is emitted from the empty source alone. -/
theorem Emitted.eq_empty (h : Emitted config template source blankModule) : source = "" := by
  obtain ⟨code, hmodule, ⟨hs, _⟩ | ⟨_, known, raw, hcode, hreaches⟩⟩ := h
  · exact hs
  · obtain ⟨program, hprogram⟩ := hreaches.ofBind
    obtain ⟨body, hbody⟩ := hprogram.ofBind
    cases hbody
    have hblank : code = "" := (config.module_eq_blank code template).mp hmodule.symm
    exact absurd (hcode.symm.trans hblank) (Job.compact_specText_ne_empty body)

end Emitted

/-! ## 2. Stages -/

/-- How far a load has come that has read its template. -/
inductive Phase where
  /-- It has read the template, and that is all. -/
  | begun
  /-- It has asked when the template was written. -/
  | timed (modified : Int)
  /-- It has asked for the entry, which was newer. -/
  | fresh
  /-- There is nothing to serve. -/
  | missed
  /-- It has emitted a module. -/
  | emitted (loaded : Loaded)
  /-- It has written the module into a file of its own, at this time. -/
  | written (loaded : Loaded) (modified : Int)

/-- How far a load has come. -/
inductive Stage where
  /-- Somebody asked for it. -/
  | asked
  /-- It has read this source. -/
  | running (source : String) (phase : Phase)
  /-- It has come to an end. -/
  | ended (result : Except LoadError Loaded)

/-- A load that has this stage has only looked at files so far. -/
def Stage.Looks : Stage → Prop
  | .asked | .running _ .begun | .running _ (.timed _) | .running _ .fresh => True
  | _ => False

/-- A step of the load of a template: from a stage in a build to a stage in a build. A compilation is one
    step, but is not done in one build: whatever it finds on the way, it comes to some module that may be
    emitted from the source, or to none. The file that a module is written into is none that anybody knows
    until it is moved, so all that it brings along is its time. -/
inductive Advance (config : Config) (dir template : Path) (build : Build) : Stage → Stage → Build → Prop where
  /-- The template is read. -/
  | read {source : String} (h : build.tree.readText template = .ok source) :
    Advance config dir template build .asked (.running source .begun) build
  /-- The template cannot be read. -/
  | unread {cause : IoError} {error : LoadError} (h : build.tree.readText template = .error cause) :
    Advance config dir template build .asked (.ended (.error error)) build
  /-- When was the template written? -/
  | timed {source : String} {entry : Entry} (h : build.tree.stat template = .ok entry) :
    Advance config dir template build (.running source .begun) (.running source (.timed entry.modified)) build
  /-- Nobody knows. -/
  | untimed {source : String} {cause : IoError} {later : Build} (h : build.tree.stat template = .error cause)
    (told : build.Told later) :
    Advance config dir template build (.running source .begun) (.running source .missed) later
  /-- The entry is newer. -/
  | fresh {source : String} {modified : Int} {held : Entry}
    (h : build.tree.stat (ModuleStore.entry ⟨dir⟩ template) = .ok held) (newer : modified < held.modified) :
    Advance config dir template build (.running source (.timed modified)) (.running source .fresh) build
  /-- There is no entry that is newer. -/
  | stale {source : String} {modified : Int} {later : Build}
    (h : ∀ held, build.tree.stat (ModuleStore.entry ⟨dir⟩ template) = .ok held → held.modified ≤ modified)
    (told : build.Told later) :
    Advance config dir template build (.running source (.timed modified)) (.running source .missed) later
  /-- The entry is read, and served. -/
  | served {source text : String} {later : Build}
    (h : build.tree.readText (ModuleStore.entry ⟨dir⟩ template) = .ok text) (told : build.Told later) :
    Advance config dir template build (.running source .fresh) (.ended (.ok ⟨text, [], 0, true⟩)) later
  /-- The entry cannot be read. -/
  | unserved {source : String} {cause : IoError} {later : Build}
    (h : build.tree.readText (ModuleStore.entry ⟨dir⟩ template) = .error cause) (told : build.Told later) :
    Advance config dir template build (.running source .fresh) (.running source .missed) later
  /-- The template is compiled. -/
  | compiled {source : String} {loaded : Loaded} {later : Build}
    (emitted : Emitted config template source loaded.text) (new : loaded.fromCache = false)
    (tree : later.tree = build.tree) :
    Advance config dir template build (.running source .missed) (.running source (.emitted loaded)) later
  /-- The template is not compiled. -/
  | refused {source : String} {error : LoadError} {later : Build} (tree : later.tree = build.tree) :
    Advance config dir template build (.running source .missed) (.ended (.error error)) later
  /-- A directory is made. -/
  | made {source : String} {loaded : Loaded} {path : Path} {tree : FileTree}
    (h : build.tree.makeDir path = .ok tree) :
    Advance config dir template build (.running source (.emitted loaded)) (.running source (.emitted loaded))
      { build with tree }
  /-- The module cannot be written. -/
  | unwritten {source : String} {loaded : Loaded} {error : LoadError} {later : Build}
    (told : build.Told later) :
    Advance config dir template build (.running source (.emitted loaded)) (.ended (.error error)) later
  /-- The module is written. -/
  | written {source : String} {loaded : Loaded} :
    Advance config dir template build (.running source (.emitted loaded))
      (.running source (.written loaded build.tree.now)) build
  /-- What was written is moved onto the entry. -/
  | stored {source : String} {loaded : Loaded} {modified : Int} {tree : FileTree} {later : Build}
    (h : ({ build.tree with now := modified }).replaceFile (ModuleStore.entry ⟨dir⟩ template)
      (.ofText loaded.text) = .ok tree)
    (told : Build.Told { build with tree := { tree with now := build.tree.now } } later) :
    Advance config dir template build (.running source (.written loaded modified)) (.ended (.ok loaded)) later
  /-- It cannot be moved. -/
  | unstored {source : String} {loaded : Loaded} {modified : Int} {error : LoadError} {later : Build}
    (told : build.Told later) :
    Advance config dir template build (.running source (.written loaded modified)) (.ended (.error error)) later

section Stages

variable {config : Config} {dir template : Path} {build later : Build} {stage next : Stage}

/-- **A load that has only looked at files** has done so from its beginning, and its steps wrote messages at
    most. -/
theorem Advance.told (h : Advance config dir template build stage next later) (hn : next.Looks) :
    stage.Looks ∧ build.Told later := by
  cases h with
  | read => exact ⟨trivial, .refl build⟩
  | timed => exact ⟨trivial, .refl build⟩
  | fresh => exact ⟨trivial, .refl build⟩
  | _ => exact hn.elim

/-! ## 3. A load that runs alone -/

/-- Any number of steps of a load, with nobody else in between. -/
inductive Alone (config : Config) (dir template : Path) (stage : Stage) (build : Build) :
    Stage → Build → Prop where
  /-- No step yet. -/
  | start : Alone config dir template stage build stage build
  /-- One more step. -/
  | step {next last : Stage} {later final : Build} (before : Alone config dir template stage build next later)
    (h : Advance config dir template later next last final) :
    Alone config dir template stage build last final

theorem Alone.trans {last : Stage} {final : Build} (h : Alone config dir template stage build next later)
    (h' : Alone config dir template next later last final) :
    Alone config dir template stage build last final := by
  induction h' with
  | start => exact h
  | step _ hlast ih => exact ih.step hlast

variable {source : String} {missed : Build}

/-- A module that is found is served. -/
theorem alone_served (hdir : config.cacheDir = some dir) {text : String}
    (h : (storedModule? config template).exec build = (.ok (some text), missed)) (hl : missed.Told later) :
    Alone config dir template (.running source .begun) build (.ended (.ok ⟨text, [], 0, true⟩)) later := by
  obtain ⟨htold, found, hfound, hlook⟩ := storedModule?_spec config template build
  rw [h] at htold hfound
  cases hfound
  obtain ⟨_, hdir', hlook⟩ := hlook text rfl
  cases hdir'.symm.trans hdir
  obtain ⟨hread, _, _, hsource, hheld, hnewer⟩ := ModuleStore.lookup_spec ⟨dir⟩ hlook
  exact ((Alone.start.step (.timed hsource)).step (.fresh hheld hnewer)).step
    (.served hread (htold.trans hl))

/-- If none is found, then there is none to serve. -/
theorem alone_missed (hdir : config.cacheDir = some dir)
    (h : (storedModule? config template).exec build = (.ok none, missed)) :
    Alone config dir template (.running source .begun) build (.running source .missed) missed := by
  have htold := (storedModule?_spec config template build).1
  rw [h] at htold
  cases hsource : build.tree.stat template with
  | error => exact Alone.start.step (.untimed hsource htold)
  | ok entry =>
    have htimed : Alone config dir template (.running source .begun) build
        (.running source (.timed entry.modified)) build := Alone.start.step (.timed hsource)
    by_cases hnewer : ∃ held, build.tree.stat (ModuleStore.entry ⟨dir⟩ template) = .ok held ∧
      entry.modified < held.modified
    · obtain ⟨held, hheld, hnewer⟩ := hnewer
      cases hread : build.tree.readText (ModuleStore.entry ⟨dir⟩ template) with
      | error => exact (htimed.step (.fresh hheld hnewer)).step (.unserved hread htold)
      | ok text =>
        have hlook := ModuleStore.lookup_of_newer ⟨dir⟩ hread hsource hheld hnewer build.journal
        cases h.symm.trans (storedModule?_of_lookup hdir hlook)
    · exact htimed.step (.stale (fun held hheld => Int.not_lt.mp fun hlt => hnewer ⟨held, hheld, hlt⟩) htold)

theorem alone_made {loaded : Loaded} {tree : FileTree} (h : FileTree.Makes build.tree tree) :
    Alone config dir template (.running source (.emitted loaded)) build
      (.running source (.emitted loaded)) { build with tree } := by
  induction h with
  | refl => exact .start
  | tail _ hmake ih =>
    obtain ⟨path, hmake⟩ := hmake
    exact ih.step (.made hmake)

/-- A module that was emitted is stored, or not. -/
theorem alone_stored (hdir : config.cacheDir = some dir) {loaded : Loaded} {tree : FileTree}
    {result : Except LoadError Unit} (h : storeModule config template loaded.text build.tree = (result, tree))
    (hl : Build.Told { build with tree } later) :
    Alone config dir template (.running source (.emitted loaded)) build
      (.ended (result.map fun _ => loaded)) later := by
  rw [storeModule_eq hdir] at h
  unfold ModuleStore.insert FileTree.writeFile at h
  dsimp only at h
  have hmade : FileTree.Makes build.tree (build.tree.ensureDir dir).2 := FileTree.ensureDir_makes dir
  generalize build.tree.ensureDir dir = first at h hmade
  obtain ⟨error | ⟨⟩, made⟩ := first
  · cases h
    exact (alone_made hmade).step (.unwritten hl)
  dsimp only at h
  have hagain : FileTree.Makes made
      (made.ensureDir (FileTree.dirOf (ModuleStore.entry ⟨dir⟩ template))).2 := FileTree.ensureDir_makes _
  generalize made.ensureDir (FileTree.dirOf (ModuleStore.entry ⟨dir⟩ template)) = second at h hagain
  obtain ⟨error | ⟨⟩, last⟩ := second
  · cases h
    exact (alone_made (hmade.trans hagain)).step (.unwritten hl)
  dsimp only at h
  have hwritten : Alone config dir template (.running source (.emitted loaded)) build
      (.running source (.written loaded last.now)) { build with tree := last } :=
    (alone_made (hmade.trans hagain)).step .written
  cases hreplace : last.replaceFile (ModuleStore.entry ⟨dir⟩ template) (.ofText loaded.text) with
  | error error =>
    rw [hreplace] at h
    cases h
    exact hwritten.step (.unstored hl)
  | ok stored =>
    rw [hreplace] at h
    cases h
    obtain ⟨place, hwrote⟩ := FileTree.replaceFile_wrote hreplace
    have hnow : ({ stored with now := last.now } : FileTree) = stored := by rw [← hwrote.changed.now]
    exact hwritten.step (.stored hreplace (hnow.symm ▸ hl))

/-- A template that settles is emitted and stored, or not. -/
theorem alone_compiled (hdir : config.cacheDir = some dir) {seeded : Build} {settled : Settled} {p : Progress}
    {tree : FileTree} {result : Except LoadError Unit} (hseeds : seeded.tree = missed.tree)
    (settle : (loadJob config template seeded.tree).settle source seeded.registry seeded.journal =
      (.ok settled, p))
    (store : storeModule config template (config.module settled.code template) seeded.tree = (result, tree))
    (left : later.Left p tree) :
    Alone config dir template (.running source .missed) missed (.ended (result.map fun _ =>
      ⟨config.module settled.code template, settled.table.dependencies, settled.passes, false⟩)) later := by
  have hcompiled : Alone config dir template (.running source .missed) missed
      (.running source (.emitted
        ⟨config.module settled.code template, settled.table.dependencies, settled.passes, false⟩))
      ⟨seeded.tree, p.registry, p.journal⟩ :=
    Alone.start.step (.compiled (Emitted.ofSettle settle) rfl hseeds)
  exact hcompiled.trans (alone_stored hdir store ⟨left.tree, left.registry, left.journal⟩)

/-- **A load that runs alone takes these steps**, from its source to its end. -/
theorem load_alone (hdir : config.cacheDir = some dir) (source : String) {result : Except LoadError Loaded}
    (h : (load config source template).exec build = (result, later)) :
    Alone config dir template (.running source .begun) build (.ended result) later := by
  obtain ⟨_, found, hfound, _⟩ := storedModule?_spec config template build
  rcases hstored : (storedModule? config template).exec build with ⟨_, missed⟩
  rw [hstored] at hfound
  cases hfound
  cases found with
  | some text =>
    obtain ⟨last, hload, htold⟩ := load_of_stored config template build source hstored
    cases h.symm.trans hload
    exact alone_served hdir hstored htold
  | none =>
    rw [load_of_missed config template build source hstored] at h
    refine (alone_missed hdir hstored).trans ?_
    cases hcheck : ((checkRuntime config).exec missed).1 with
    | error error =>
      obtain ⟨last, hrefused, htold⟩ := compileTemplate_refused config template missed source hcheck
      cases h.symm.trans hrefused
      exact Alone.start.step (.refused htold.tree)
    | ok =>
      obtain ⟨seeded, hseeds, ends⟩ := compileTemplate_compiles config template missed source hcheck
      rw [h] at ends
      cases ends with
      | failed _ left => exact Alone.start.step (.refused (left.tree.trans hseeds.tree))
      | emitted settle store left => exact alone_compiled hdir hseeds.tree settle store left
      | unstored settle store left => exact alone_compiled hdir hseeds.tree settle store left

/-- The same, from the reading of the template on. -/
theorem loadFile_alone (hdir : config.cacheDir = some dir) {result : Except LoadError Loaded}
    (h : (loadFile config template).exec build = (result, later)) :
    Alone config dir template .asked build (.ended result) later := by
  cases hread : build.tree.readText template with
  | ok source =>
    rw [loadFile_of_source hread] at h
    exact (Alone.start.step (.read hread)).trans (load_alone hdir source h)
  | error =>
    rcases loadFile_eq h with ⟨source, hsource, _⟩ | ⟨⟨error, rfl⟩, rfl⟩
    · cases hread.symm.trans hsource
    · exact Alone.start.step (.unread hread)

end Stages

end Stache
