import Stache.Job.Load
import Stache.Proofs.Job.Run

/-!
# What a load does to the build

A load is carried out in a build, and what changes before a failure stays changed. `LoadEnds` tells what a
load comes to: a stored module is served, the runtime is of another revision, or the template is settled in
the build in which the known helpers were made known, and its module is stored.

* `BuildM.exec` -- carries a computation out, with one equation for each way to put computations together;
* `Build.Told` -- what changes when only messages are written;
* `load_ends` -- **a load comes to one of these ends**; `loadFile_eq` -- so does one that reads its template first.
-/

namespace Stache

namespace BuildM

variable {α β : Type}

/-! ## 1. Carrying a computation out -/

/-- What a computation comes to in a build, and the build afterwards. -/
def exec (m : BuildM α) (build : Build) : Except LoadError α × Build :=
  m.run.run build

theorem exec_bind (m : BuildM α) (f : α → BuildM β) (build : Build) :
    (m >>= f).exec build =
      match m.exec build with
      | (.ok a, later) => (f a).exec later
      | (.error error, later) => (.error error, later) := by
  show (ExceptT.bindCont f (m.exec build).1).run (m.exec build).2 = _
  rcases m.exec build with ⟨_ | _, _⟩
  · rfl
  · rfl

theorem exec_get (build : Build) : (get : BuildM Build).exec build = (.ok build, build) := rfl

theorem exec_set (later build : Build) : (set later : BuildM PUnit).exec build = (.ok ⟨⟩, later) := rfl

theorem exec_ofExcept (result : Except LoadError α) (build : Build) :
    (MonadExcept.ofExcept result : BuildM α).exec build = (result, build) := by
  cases result <;> rfl

end BuildM

/-- The later build differs in its messages at most. -/
structure Build.Told (build later : Build) : Prop where
  tree : later.tree = build.tree
  registry : later.registry = build.registry
  journal : later.journal.Agrees build.journal

namespace Build.Told

variable {a b c : Build}

theorem refl (build : Build) : Build.Told build build := ⟨rfl, rfl, .refl _⟩

theorem trans (h : a.Told b) (h' : b.Told c) : a.Told c :=
  ⟨h'.tree.trans h.tree, h'.registry.trans h.registry, h'.journal.trans h.journal⟩

theorem log (build : Build) (level : Level) (message : String) :
    build.Told { build with journal := build.journal.log level message } :=
  ⟨rfl, rfl, .log _ _ _⟩

end Build.Told

/-! ## 2. The steps of a load -/

variable (config : Config) (template : Path) (build : Build)

open BuildM

/-- The check of the runtime writes messages at most. -/
theorem checkRuntime_told : build.Told ((checkRuntime config).exec build).2 := by
  unfold checkRuntime
  cases config.runtime with
  | none => exact .refl build
  | some runtime =>
    rw [exec_bind, exec_get]
    dsimp only
    split
    · exact .log build _ _
    · split
      · exact .log build _ _
      · split
        · exact .refl build
        · exact .refl build

/-- What the check comes to is a matter of the files. -/
theorem checkRuntime_congr {a b : Build} (h : a.tree = b.tree) :
    ((checkRuntime config).exec a).1 = ((checkRuntime config).exec b).1 := by
  unfold checkRuntime
  cases config.runtime with
  | none => rfl
  | some runtime =>
    rw [exec_bind, exec_bind, exec_get, exec_get]
    dsimp only
    rw [h]
    cases b.tree.readText ⟨runtime⟩ with
    | error error => rfl
    | ok text =>
      dsimp only
      cases declaredRevision? text with
      | none => rfl
      | some revision =>
        dsimp only
        split
        · rfl
        · rfl

/-- What is known about helpers when a job begins: those of every runtime, those of the options, and those
    in directories, unless they were scanned before. -/
def seededRegistry (tree : FileTree) (registry : Registry) : Registry :=
  (scanHelpers tree config.helperExtension config.helperDirs
    ((builtinHelpers ++ config.knownHelpers).foldl Registry.insert registry) []).2.1

/-- The later build is the one in which a job begins. -/
structure Build.Seeded (config : Config) (build later : Build) : Prop where
  tree : later.tree = build.tree
  registry : later.registry = seededRegistry config build.tree build.registry
  journal : later.journal.Agrees build.journal

theorem scanHelpers_spec (tree : FileTree) (extension : String) (dirs : List Path) (registry : Registry)
    (journal : Journal) :
    (scanHelpers tree extension dirs registry journal).2.1 =
        (scanHelpers tree extension dirs registry []).2.1 ∧
      (scanHelpers tree extension dirs registry journal).2.2.Agrees journal := by
  unfold scanHelpers
  split
  · exact ⟨rfl, .refl journal⟩
  · refine ⟨rfl, ?_⟩
    dsimp only
    generalize helpersIn tree extension dirs = helpers
    induction helpers generalizing journal with
    | nil => exact .refl journal
    | cons helper helpers ih => exact (ih _).trans (.log _ _ _)

theorem seedHelpers_spec : ((seedHelpers config).exec build).1 = .ok ⟨⟩ ∧
    build.Seeded config ((seedHelpers config).exec build).2 := by
  obtain ⟨hr, hj⟩ := scanHelpers_spec build.tree config.helperExtension config.helperDirs
    ((builtinHelpers ++ config.knownHelpers).foldl Registry.insert build.registry) build.journal
  unfold seedHelpers
  rw [exec_bind, exec_get]
  dsimp only
  rw [exec_bind, exec_set]
  dsimp only
  split
  · exact ⟨rfl, rfl, hr, (Journal.Agrees.log _ _ _).trans hj⟩
  · exact ⟨rfl, rfl, hr, hj⟩

theorem ModuleStore.lookup_agrees (store : ModuleStore) (tree : FileTree) (journal : Journal) :
    (store.lookup template tree journal).2.Agrees journal := by
  unfold ModuleStore.lookup
  dsimp only
  repeat' split
  all_goals
    first
    | exact .refl journal
    | exact .log _ _ _

/-- To look for a stored module writes messages at most. An entry that cannot be read is none. -/
theorem storedModule?_spec :
    build.Told ((storedModule? config template).exec build).2 ∧
      ∃ found, ((storedModule? config template).exec build).1 = .ok found ∧
        ∀ text, found = some text → ∃ dir, config.cacheDir = some dir ∧
          (ModuleStore.lookup ⟨dir⟩ template build.tree build.journal).1 = .ok (some text) := by
  unfold storedModule?
  cases hdir : config.cacheDir with
  | none => exact ⟨.refl build, none, rfl, nofun⟩
  | some dir =>
    have ha := ModuleStore.lookup_agrees template ⟨dir⟩ build.tree build.journal
    dsimp only
    rw [exec_bind, exec_get]
    dsimp only
    rcases hlook : ModuleStore.lookup ⟨dir⟩ template build.tree build.journal with ⟨result, journal⟩
    rw [hlook] at ha
    have ht : build.Told { build with journal } := ⟨rfl, rfl, ha⟩
    rw [exec_bind, exec_set]
    cases result with
    | ok found => exact ⟨ht, found, rfl, fun text e => ⟨dir, rfl, by rw [hlook, e]⟩⟩
    | error error => exact ⟨ht.trans (.log _ _ _), none, rfl, nofun⟩

/-! ## 3. What a load may come to -/

/-- The module of a template is stored, if there is a store: with what outcome, and in which files. -/
def storeModule (text : String) (tree : FileTree) : Except LoadError Unit × FileTree :=
  match config.cacheDir with
  | none => (.ok ⟨⟩, tree)
  | some dir =>
    let (result, later) := ModuleStore.insert ⟨dir⟩ template text tree
    (result.map fun _ => ⟨⟩, later)

/-- The job of a load that begins with these files. -/
def loadJob (tree : FileTree) : Job :=
  jobFor templateCompiler config tree (templateDir template) template.storageForm

/-- The build is what the job left, with messages more, and with other files. -/
structure Build.Left (p : Progress) (tree : FileTree) (later : Build) : Prop where
  tree : later.tree = tree
  registry : later.registry = p.registry
  journal : later.journal.Agrees p.journal

variable (source : String)

/-- What it comes to that a template is compiled in the build in which its job begins. -/
inductive CompileEnds (seeded : Build) : Except LoadError Loaded × Build → Prop where
  /-- The template does not settle. -/
  | failed {error : LoadError} {p : Progress} {later : Build}
    (settle : (loadJob config template seeded.tree).settle source seeded.registry seeded.journal =
      (.error error, p))
    (left : later.Left p seeded.tree) : CompileEnds seeded (.error error, later)
  /-- The template settles, and its module is stored. -/
  | emitted {settled : Settled} {p : Progress} {tree : FileTree} {later : Build}
    (settle : (loadJob config template seeded.tree).settle source seeded.registry seeded.journal =
      (.ok settled, p))
    (store : storeModule config template (config.module settled.code template) seeded.tree =
      (.ok ⟨⟩, tree))
    (left : later.Left p tree) : CompileEnds seeded
      (.ok ⟨config.module settled.code template, settled.table.dependencies, settled.passes, false⟩, later)
  /-- The template settles, and its module cannot be stored. -/
  | unstored {settled : Settled} {p : Progress} {error : LoadError} {tree : FileTree} {later : Build}
    (settle : (loadJob config template seeded.tree).settle source seeded.registry seeded.journal =
      (.ok settled, p))
    (store : storeModule config template (config.module settled.code template) seeded.tree =
      (.error error, tree))
    (left : later.Left p tree) : CompileEnds seeded (.error error, later)

/-- What a load may come to. -/
inductive LoadEnds : Except LoadError Loaded × Build → Prop where
  /-- A stored module is served. -/
  | served {dir : Path} {text : String} {later : Build} (hdir : config.cacheDir = some dir)
    (found : (ModuleStore.lookup ⟨dir⟩ template build.tree build.journal).1 = .ok (some text))
    (told : build.Told later) : LoadEnds (.ok ⟨text, [], 0, true⟩, later)
  /-- The runtime has another revision. -/
  | refused {error : LoadError} {later : Build} (told : build.Told later) :
    LoadEnds (.error error, later)
  /-- The template is compiled. -/
  | compiled {seeded : Build} {result : Except LoadError Loaded × Build}
    (seeds : build.Seeded config seeded) (ends : CompileEnds config template source seeded result) :
    LoadEnds result

/-! ## 4. All ends -/

theorem exec_settleTemplate (p : Progress) (result : Except LoadError Settled)
    (h : (loadJob config template build.tree).settle source build.registry build.journal = (result, p)) :
    (settleTemplate config source template).exec build =
      (result, { build with registry := p.registry, journal := p.journal }) := by
  have hjob : jobFor templateCompiler config build.tree (templateDir template) template.storageForm =
      loadJob config template build.tree := rfl
  unfold settleTemplate
  rw [exec_bind, exec_get]
  dsimp only
  rw [hjob, h, exec_bind, exec_set]
  exact exec_ofExcept result _

/-- **A template is compiled** once the helpers are made known. -/
theorem compileTemplate_compiles (hcheck : ((checkRuntime config).exec build).1 = .ok ⟨⟩) :
    ∃ seeded, build.Seeded config seeded ∧
      CompileEnds config template source seeded ((compileTemplate config source template).exec build) := by
  have htold := checkRuntime_told config build
  unfold compileTemplate
  rw [exec_bind]
  generalize (checkRuntime config).exec build = check at hcheck htold ⊢
  obtain ⟨result, checked⟩ := check
  obtain rfl : result = .ok ⟨⟩ := hcheck
  obtain ⟨hok, hseed⟩ := seedHelpers_spec config checked
  dsimp only
  rw [exec_bind]
  generalize (seedHelpers config).exec checked = seed at hok hseed ⊢
  obtain ⟨result, seeded⟩ := seed
  obtain rfl : result = .ok ⟨⟩ := hok
  refine ⟨seeded, ⟨hseed.tree.trans htold.tree, by rw [hseed.registry, htold.tree, htold.registry],
    hseed.journal.trans htold.journal⟩, ?_⟩
  dsimp only
  rcases hsettle : (loadJob config template seeded.tree).settle source seeded.registry seeded.journal with
    ⟨result, p⟩
  rw [exec_bind, exec_settleTemplate config template seeded source p result hsettle]
  cases result with
  | error error => exact .failed hsettle ⟨rfl, rfl, .refl _⟩
  | ok settled =>
    dsimp only
    cases hdir : config.cacheDir with
    | none =>
      have hstore : storeModule config template (config.module settled.code template) seeded.tree =
          (.ok ⟨⟩, seeded.tree) := by rw [storeModule, hdir]
      exact .emitted hsettle hstore ⟨rfl, rfl, .refl _⟩
    | some dir =>
      rcases hinsert : ModuleStore.insert ⟨dir⟩ template (config.module settled.code template) seeded.tree
        with ⟨result, tree⟩
      have hstore : storeModule config template (config.module settled.code template) seeded.tree =
          (result.map fun _ => ⟨⟩, tree) := by
        rw [storeModule, hdir]
        dsimp only
        rw [hinsert]
      rw [exec_bind, exec_get]
      dsimp only
      rw [hinsert, exec_bind, exec_set]
      dsimp only
      rw [exec_bind, exec_ofExcept]
      cases result with
      | error error => exact .unstored hsettle hstore ⟨rfl, rfl, .refl _⟩
      | ok entry => exact .emitted hsettle hstore ⟨rfl, rfl, .log _ _ _⟩

/-- A runtime of another revision is refused before that. -/
theorem compileTemplate_refused {error : LoadError}
    (hcheck : ((checkRuntime config).exec build).1 = .error error) :
    ∃ later, (compileTemplate config source template).exec build = (.error error, later) ∧
      build.Told later := by
  have htold := checkRuntime_told config build
  unfold compileTemplate
  rw [exec_bind]
  generalize (checkRuntime config).exec build = check at hcheck htold ⊢
  obtain ⟨result, checked⟩ := check
  obtain rfl : result = .error error := hcheck
  exact ⟨checked, rfl, htold⟩

variable {build} in
/-- So the template is compiled, or the runtime is refused. -/
theorem compileTemplate_ends {start : Build} (hstart : build.Told start) :
    LoadEnds config template build source ((compileTemplate config source template).exec start) := by
  cases hcheck : ((checkRuntime config).exec start).1 with
  | error error =>
    obtain ⟨later, hrefused, htold⟩ := compileTemplate_refused config template start source hcheck
    rw [hrefused]
    exact .refused (hstart.trans htold)
  | ok =>
    obtain ⟨seeded, hseed, ends⟩ := compileTemplate_compiles config template start source hcheck
    refine .compiled ⟨hseed.tree.trans hstart.tree, ?_, hseed.journal.trans hstart.journal⟩ ends
    rw [hseed.registry, hstart.tree, hstart.registry]

/-- A load without a stored module is a compilation. -/
theorem load_of_missed {later : Build} (h : (storedModule? config template).exec build = (.ok none, later)) :
    (load config source template).exec build = (compileTemplate config source template).exec later := by
  unfold load
  rw [exec_bind, h]

/-- A stored module is served as it is. -/
theorem load_of_stored {missed : Build} {text : String}
    (h : (storedModule? config template).exec build = (.ok (some text), missed)) :
    ∃ later, (load config source template).exec build = (.ok ⟨text, [], 0, true⟩, later) ∧
      missed.Told later := by
  unfold load
  rw [exec_bind, h]
  exact ⟨_, rfl, .log _ _ _⟩

/-- **A load comes to one of these ends.** -/
theorem load_ends : LoadEnds config template build source ((load config source template).exec build) := by
  obtain ⟨htold, found, hfound, hlook⟩ := storedModule?_spec config template build
  rcases hstored : (storedModule? config template).exec build with ⟨result, later⟩
  rw [hstored] at htold hfound
  obtain rfl : result = .ok found := hfound
  cases found with
  | some text =>
    obtain ⟨dir, hdir, hlook⟩ := hlook text rfl
    obtain ⟨last, hload, hlast⟩ := load_of_stored config template build source hstored
    rw [hload]
    exact .served hdir hlook (htold.trans hlast)
  | none =>
    rw [load_of_missed config template build source hstored]
    exact compileTemplate_ends config template source htold

/-! ## 5. Loads of files -/

variable {config template source build}

/-- The load of a file that can be read is the load of what it holds. -/
theorem loadFile_of_source (h : build.tree.readText template = .ok source) :
    (loadFile config template).exec build = (load config source template).exec build := by
  unfold loadFile
  rw [BuildM.exec_bind, BuildM.exec_get]
  dsimp only
  rw [h]

/-- What a load of a file comes to. -/
theorem loadFile_eq {later : Build} {result : Except LoadError Loaded}
    (h : (loadFile config template).exec build = (result, later)) :
    (∃ source, build.tree.readText template = .ok source ∧
      (load config source template).exec build = (result, later)) ∨
    (∃ error, result = .error error) ∧ later = build := by
  cases hread : build.tree.readText template with
  | ok source => exact .inl ⟨source, rfl, (loadFile_of_source hread).symm.trans h⟩
  | error error =>
    unfold loadFile at h
    rw [BuildM.exec_bind, BuildM.exec_get] at h
    dsimp only at h
    rw [hread] at h
    cases h
    exact .inr ⟨⟨_, rfl⟩, rfl⟩

end Stache
