import Stache.Proofs.Job.Served
import Stache.Proofs.Job.Steady

/-!
# Loads without a store

A load that compiles its template comes to what it would come to without a store: what is stored is the
module that was emitted, and nobody looks at the store on the way.

* `Config.unstored` -- the configuration without a store;
* `load_compiled` -- what a load that compiles its template comes to;
* `load_unstored` -- **without a store the same load comes to the same**;
* `load_of_settles`, `load_of_settles_unstored` -- a load that does compile its template.
-/

namespace Stache

open BuildM

/-- The configuration without a store. -/
def Config.unstored (config : Config) : Config :=
  { config with cacheDir := none }

/-- The store is no matter of the module that is emitted. -/
theorem Config.module_unstored (config : Config) (code : String) (template : Path) :
    config.unstored.module code template = config.module code template := by
  have hruntime : config.unstored.runtimeRequest = config.runtimeRequest := rfl
  have hprefixes : config.unstored.hiddenPrefixes = config.hiddenPrefixes := rfl
  unfold Config.module Config.identifier
  rw [hruntime, hprefixes]

/-- The store is no matter of a job. -/
theorem loadJob_alike (config : Config) (template : Path) (tree : FileTree) :
    (loadJob config template tree).Alike (loadJob config.unstored template tree) where
  compiler := rfl
  name := rfl
  known := rfl
  inline := rfl
  search := by
    have h : (loadJob config template tree).plan.Alike (loadJob config.unstored template tree).plan := by
      refine ⟨fun _ => rfl, rfl, rfl, rfl, ?_⟩
      funext kind name
      cases kind <;> rfl
    exact h.search_eq

variable {config : Config} {source : String} {template : Path} {build later : Build} {loaded : Loaded}

/-- **A load that compiles its template**: the runtime is of the right revision, the template settles where
    its job begins, and its module is stored. -/
theorem load_compiled (h : (load config source template).exec build = (.ok loaded, later))
    (hcompiled : loaded.fromCache = false) :
    ((checkRuntime config).exec build).1 = .ok ⟨⟩ ∧
    ∃ seeded settled p, build.Seeded config seeded ∧
      (loadJob config template seeded.tree).settle source seeded.registry seeded.journal =
        (.ok settled, p) ∧
      storeModule config template (config.module settled.code template) seeded.tree =
        (.ok ⟨⟩, later.tree) ∧
      later.registry = p.registry ∧
      loaded = ⟨config.module settled.code template, settled.table.dependencies, settled.passes, false⟩ := by
  obtain ⟨htold, found, hfound, _⟩ := storedModule?_spec config template build
  rcases hstored : (storedModule? config template).exec build with ⟨result, missed⟩
  rw [hstored] at htold hfound
  obtain rfl : result = .ok found := hfound
  cases found with
  | some text =>
    obtain ⟨_, hload, _⟩ := load_of_stored config template build source hstored
    rw [hload] at h
    cases h
    cases hcompiled
  | none =>
    rw [load_of_missed config template build source hstored] at h
    have hcheck : ((checkRuntime config).exec missed).1 = .ok ⟨⟩ := by
      cases hcheck : ((checkRuntime config).exec missed).1 with
      | ok => rfl
      | error error =>
        obtain ⟨_, hrefused, _⟩ := compileTemplate_refused config template missed source hcheck
        rw [hrefused] at h
        cases h
    refine ⟨(checkRuntime_congr config htold.tree).symm.trans hcheck, ?_⟩
    obtain ⟨seeded, hseed, ends⟩ := compileTemplate_compiles config template missed source hcheck
    have hseeds : build.Seeded config seeded :=
      ⟨hseed.tree.trans htold.tree, by rw [hseed.registry, htold.tree, htold.registry],
        hseed.journal.trans htold.journal⟩
    rw [h] at ends
    cases ends with
    | @emitted settled p tree _ settle store left =>
      rw [← left.tree] at store
      exact ⟨seeded, settled, p, hseeds, settle, store, left.registry, rfl⟩

/-- **Without a store the same load comes to the same**, if the template is compiled. -/
theorem load_unstored (h : (load config source template).exec build = (.ok loaded, later))
    (hcompiled : loaded.fromCache = false) :
    ∃ other, (load config.unstored source template).exec build = (.ok loaded, other) := by
  obtain ⟨hcheck, seeded, settled, p, hseeds, hsettle, _, _, rfl⟩ := load_compiled h hcompiled
  have hmissed : (storedModule? config.unstored template).exec build = (.ok none, build) := rfl
  rw [load_of_missed config.unstored template build source hmissed]
  obtain ⟨begun, hbegun, ends⟩ := compileTemplate_compiles config.unstored template build source hcheck
  have htree : begun.tree = seeded.tree := hbegun.tree.trans hseeds.tree.symm
  have hregistry : begun.registry = seeded.registry := hbegun.registry.trans hseeds.registry.symm
  have hagain (journal : Journal) :=
    Job.settle_alike (loadJob_alike config template seeded.tree) hsettle journal
  rw [← htree, ← hregistry] at hagain
  obtain ⟨q, hq, _⟩ := hagain begun.journal
  generalize (compileTemplate config.unstored source template).exec build = result at ends ⊢
  cases ends with
  | failed settle =>
    rw [hq] at settle
    cases settle
  | @emitted again _ _ later settle =>
    rw [hq] at settle
    cases settle
    exact ⟨later, by rw [Config.module_unstored]⟩
  | unstored _ store => cases store

/-- A template that settles where its job begins, and whose module can be stored, is compiled if there is no
    stored module. With the usual runtime there is nothing to check. -/
theorem load_of_settles {missed : Build}
    (hmissed : (storedModule? config template).exec build = (.ok none, missed))
    (hruntime : config.runtime = none)
    (hsettles : ∀ journal, ∃ settled p, (loadJob config template build.tree).settle source
      (seededRegistry config build.tree build.registry) journal = (.ok settled, p))
    (hstores : ∀ text, ∃ tree, storeModule config template text build.tree = (.ok ⟨⟩, tree)) :
    ∃ loaded later, (load config source template).exec build = (.ok loaded, later) ∧
      loaded.fromCache = false := by
  have htold : build.Told missed := by
    have := (storedModule?_spec config template build).1
    rwa [hmissed] at this
  have hcheck : ((checkRuntime config).exec missed).1 = .ok ⟨⟩ := by
    unfold checkRuntime
    rw [hruntime]
    rfl
  rw [load_of_missed config template build source hmissed]
  obtain ⟨seeded, hseeds, ends⟩ := compileTemplate_compiles config template missed source hcheck
  have htree : build.tree = seeded.tree := (hseeds.tree.trans htold.tree).symm
  have hregistry : seededRegistry config build.tree build.registry = seeded.registry := by
    rw [hseeds.registry, htold.tree, htold.registry]
  rw [hregistry, htree] at hsettles
  rw [htree] at hstores
  generalize (compileTemplate config source template).exec missed = result at ends ⊢
  cases ends with
  | failed settle =>
    obtain ⟨settled, p, hsettled⟩ := hsettles seeded.journal
    rw [hsettled] at settle
    cases settle
  | emitted => exact ⟨_, _, rfl, rfl⟩
  | @unstored settled _ _ _ _ _ store =>
    obtain ⟨tree, hstored⟩ := hstores (config.module settled.code template)
    rw [hstored] at store
    cases store

/-- Without a store a template that settles is compiled, and the files stay what they were. -/
theorem load_of_settles_unstored (hcache : config.cacheDir = none) (hruntime : config.runtime = none)
    (hsettles : ∀ journal, ∃ settled p, (loadJob config template build.tree).settle source
      (seededRegistry config build.tree build.registry) journal = (.ok settled, p)) :
    ∃ loaded later, (load config source template).exec build = (.ok loaded, later) ∧
      loaded.fromCache = false ∧ later.tree = build.tree := by
  have hmissed : (storedModule? config template).exec build = (.ok none, build) := by
    rw [storedModule?, hcache]
    rfl
  have hstores (text : String) (tree : FileTree) : storeModule config template text tree = (.ok ⟨⟩, tree) := by
    rw [storeModule, hcache]
  obtain ⟨loaded, later, hload, hcompiled⟩ :=
    load_of_settles hmissed hruntime hsettles fun text => ⟨_, hstores text _⟩
  obtain ⟨_, seeded, _, _, hseeds, _, hstore, _⟩ := load_compiled hload hcompiled
  rw [hstores] at hstore
  exact ⟨loaded, later, hload, hcompiled, (congrArg Prod.snd hstore).symm.trans hseeds.tree⟩

end Stache
