import Stache.Proofs.Files.Clock
import Stache.Proofs.Job.Modules
import Stache.Proofs.Job.Stable
import Stache.Proofs.Search.HelperFiles

/-!
# Files that are excluded

Paths come into a build in two ways: a search finds them, or the scan of the helper directories does. Only
searches pass over the files that are excluded. What a job takes over, from the registry or from one kind of
symbols to another, is the path of the same name.

* `Progress.Within` -- all paths of a state are among those that are allowed for their names;
* `round_within`, `settle_within` -- one round, and a whole job;
* `load_within` -- a load;
* `excluded_only_scanned` -- **an excluded file that is found or listed was found by the scan**;
* `scan_records_excluded` -- and the scan does find such files.
-/

namespace Stache

/-- The paths that are allowed for names. -/
abbrev Allowed := String → Path → Prop

/-- All paths of the registry are allowed. -/
def Registry.Within (allowed : Allowed) (registry : Registry) : Prop :=
  ∀ n path, registry.path? n = some path → allowed n path

/-- Searches find only what is allowed. -/
def SearchPlan.Within (allowed : Allowed) (plan : SearchPlan) : Prop :=
  ∀ kind n path, plan.Outcome kind n (some path) → allowed n path

namespace Progress

/-! ## 1. One job -/

/-- All paths of the registry and of the table are allowed. -/
structure Within (allowed : Allowed) (p : Progress) : Prop where
  registry : p.registry.Within allowed
  table : ∀ kind n path, p.table.path? kind n = some path → allowed n path

variable {allowed : Allowed} {p later : Progress}

/-- Messages are no matter. -/
theorem Within.ofTold (h : Within allowed p) (ht : p.Told later) : Within allowed later where
  registry := ht.registry ▸ h.registry
  table := ht.table ▸ h.table

section Stage

variable {plan : SearchPlan} {kind : SymbolKind} {names : List String} {found : String → Option Path}
  {anything : Bool}

/-- Where a stage says that something is, is allowed: it was found now, or it is where the helper is. -/
theorem Searched.allowed_of_found (h : p.Searched plan kind names found anything later)
    (hs : plan.Within allowed) (hp : Within allowed p) {n : String} (hn : n ∈ p.table.pending kind)
    {path : Path} (hpath : found n = some path) : allowed n path := by
  by_cases hm : n ∈ names
  · have hout := h.outcome n hm
    rw [hpath] at hout
    exact hs kind n path hout
  · rw [h.taken n hn hm] at hpath
    exact hp.table .helper n path hpath

/-- **A stage** finds only what is allowed. -/
theorem Searched.within (h : p.Searched plan kind names found anything later)
    (hs : plan.Within allowed) (hp : Within allowed p) : Within allowed later := by
  constructor
  case registry =>
    intro n path hpath
    rw [h.paths] at hpath
    split at hpath
    · rename_i hm
      cases hf : found n with
      | none =>
        rw [hf, Option.none_or] at hpath
        exact hp.registry n path hpath
      | some place =>
        rw [hf, Option.some_or] at hpath
        cases hpath
        exact h.allowed_of_found hs hp (h.sublist.subset hm.2) hf
    · exact hp.registry n path hpath
  case table =>
    intro other n path hpath
    -- where the stage writes something down, it is where it was found
    have hstage (hn : n ∈ p.table.pending kind)
        (hstate : some (Resolution.ofSearch (found n)) = some (.resolved path)) : allowed n path := by
      cases hf : found n with
      | none =>
        rw [hf] at hstate
        cases hstate
      | some place =>
        rw [hf] at hstate
        cases hstate
        exact h.allowed_of_found hs hp hn hf
    rw [SymbolTable.path?_eq_some_iff] at hpath
    by_cases ho : other = kind
    · subst ho
      rw [h.own] at hpath
      split at hpath
      · exact hstage ‹_› hpath
      · exact hp.table other n path (SymbolTable.path?_eq_some_iff.mpr hpath)
    · rw [h.others other ho] at hpath
      split at hpath
      · rename_i hm
        exact hstage hm.2.1 hpath
      · exact hp.table other n path (SymbolTable.path?_eq_some_iff.mpr hpath)

end Stage

end Progress

/-- What is written down of a helper is what was known of it, or what the registry has found. -/
theorem Registry.path?_seen {registry : Registry} {kind : SymbolKind} {n : String}
    {state : Option Resolution} {path : Path} (h : registry.seen kind n state = .resolved path) :
    state = some (.resolved path) ∨ registry.path? n = some path := by
  unfold seen at h
  split at h
  · rename_i held hheld
    rcases state with _ | _ | _ | earlier
    · cases h
      exact .inr hheld
    · cases h
      exact .inr hheld
    · cases h
      exact .inr hheld
    · cases h
      exact .inl rfl
  · rcases state with _ | state
    · cases h
    · cases h
      exact .inl rfl

namespace Job

open Progress

variable {job : Job} {source : String} {allowed : Allowed} {p later : Progress}

/-- The pass takes over what the registry has found. -/
theorem within_compiled (hp : Within allowed p) : Within allowed (job.compiled source p) := by
  constructor
  case registry =>
    rw [(job.compiled_spec source p).2.1]
    exact hp.registry
  case table =>
    intro kind n path hpath
    rw [SymbolTable.path?_eq_some_iff, get?_compiled] at hpath
    split at hpath
    · rcases Registry.path?_seen (Option.some.inj hpath) with hstate | hheld
      · exact hp.table kind n path (SymbolTable.path?_eq_some_iff.mpr hstate)
      · exact hp.registry n path hheld
    · exact hp.table kind n path (SymbolTable.path?_eq_some_iff.mpr hpath)

/-- **One round** finds only what is allowed, whatever the round comes to. -/
theorem round_within (source : String) (hs : job.plan.Within allowed) (hp : Within allowed p) :
    Within allowed (job.round source p).2 := by
  obtain ⟨_, hh⟩ := job.helpersSearched_spec source p
  obtain ⟨_, ha⟩ := job.ambiguousSearched_spec source p
  have h₀ : Within allowed (job.compiled source p) := within_compiled hp
  have h₂ := ha.within hs (hh.within hs h₀)
  have ends := job.round_ends source p
  generalize job.round source p = result at ends ⊢
  cases ends with
  | rejected => exact h₀
  | missing _ searched => exact ⟨searched.registry ▸ h₂.registry, searched.table ▸ h₂.table⟩
  | coded _ searched => exact searched.within hs h₂

/-- **A job finds only what is allowed**, whatever it comes to: all paths of the registry that it leaves are
    allowed, and if the template settles, so are all paths of the table. -/
theorem settle_within (hs : job.plan.Within allowed) {registry : Registry}
    (hr : registry.Within allowed) {journal : Journal} {result : Except LoadError Settled}
    (h : job.settle source registry journal = (result, later)) :
    later.registry.Within allowed ∧ ∀ settled, result = .ok settled →
      ∀ kind n path, settled.table.path? kind n = some path → allowed n path := by
  have hstart : Within allowed { registry, journal } := by
    refine ⟨hr, fun kind n path hpath => ?_⟩
    rw [SymbolTable.path?_eq_some_iff, SymbolTable.get?_empty] at hpath
    cases hpath
  obtain ⟨hlater, htable⟩ := settle_keeps (fun _ hp => round_within source hs hp)
    (fun _ _ hp ht => hp.ofTold ht) hstart h
  refine ⟨hlater.registry, fun settled hsettled => ?_⟩
  rw [htable settled hsettled]
  exact hlater.table

end Job

/-! ## 2. Where a job begins -/

/-- After the scan helpers are where they were, or where the scan finds them. -/
theorem path?_scanned {tree : FileTree} {extension : String} {dirs : List Path} {registry : Registry}
    {n : String} {path : Path}
    (h : (scanHelpers tree extension dirs registry []).2.1.path? n = some path) :
    (n, path) ∈ helpersIn tree extension dirs ∨ registry.path? n = some path := by
  unfold scanHelpers at h
  split at h
  · exact .inr h
  · rw [path?_recordAll, Option.or_eq_some_iff] at h
    rcases h with hlast | ⟨_, hr⟩
    · obtain ⟨helper, hm, hpath⟩ := List.mem_filterMap.mp (List.mem_of_getLast? hlast)
      obtain rfl := pathFor?_eq_some.mp hpath
      exact .inl hm
    · exact .inr hr

/-- So it is where a job begins: to make helpers known is not to find them. -/
theorem path?_seeded {config : Config} {tree : FileTree} {registry : Registry} {n : String} {path : Path}
    (h : (seededRegistry config tree registry).path? n = some path) :
    (n, path) ∈ helpersIn tree config.helperExtension config.helperDirs ∨
      registry.path? n = some path := by
  refine (path?_scanned h).imp_right fun hr => ?_
  rw [Registry.path?, (foldl_insert_found _ registry).1] at hr
  exact hr

/-! ## 3. Loads -/

/-- An excluded file for a name is allowed if the scan of the helper directories finds it. -/
def ScannedIfExcluded (config : Config) (tree : FileTree) (n : String) (path : Path) : Prop :=
  config.excludes path = true → (n, path) ∈ helpersIn tree config.helperExtension config.helperDirs

section Loads

variable {config : Config} {start build : Build}

/-- Searches pass over what is excluded. -/
theorem within_searchPlan (config : Config) (tree files : FileTree) (dir : Path) :
    (searchPlan config files dir).Within (ScannedIfExcluded config tree) := by
  rintro kind n path ⟨journal, hsearch⟩ hexcluded
  have hkept : config.excludes path = false := SearchPlan.excludes_of_search _ hsearch
  rw [hkept] at hexcluded
  cases hexcluded

/-- What a call keeps if there is no store: the files are the same, at whatever time, and excluded files are
    found only by the scan. -/
structure Build.Screened (config : Config) (files : FileTree) (build : Build) : Prop where
  tree : ∃ now, build.tree = { files with now }
  registry : build.registry.Within (ScannedIfExcluded config files)

theorem Build.Screened.ofTold {tree : FileTree} {later : Build} (h : build.Screened config tree)
    (ht : build.Told later) : later.Screened config tree :=
  ⟨ht.tree ▸ h.tree, ht.registry ▸ h.registry⟩

/-- **A load** without a store lists an excluded file only if the scan finds it. -/
theorem load_within (hcache : config.cacheDir = none) {tree : FileTree} (h : build.Screened config tree)
    {source : String} {template : Path} {result : Except LoadError Loaded × Build}
    (ends : LoadEnds config template build source result) :
    result.2.Screened config tree ∧ ∀ loaded, result.1 = .ok loaded →
      ∀ path ∈ loaded.dependencies, ∃ n, ScannedIfExcluded config tree n path := by
  cases ends with
  | served hdir =>
    rw [hcache] at hdir
    cases hdir
  | refused told => exact ⟨h.ofTold told, nofun⟩
  | @compiled seeded _ seeds ends =>
    have htree : ∃ now, seeded.tree = { tree with now } := seeds.tree ▸ h.tree
    have hseeded : seeded.registry.Within (ScannedIfExcluded config tree) := by
      intro n path hpath hexcluded
      obtain ⟨now, hnow⟩ := h.tree
      rw [seeds.registry, hnow] at hpath
      rcases path?_seeded hpath with hm | hr
      · rwa [helpersIn_now] at hm
      · exact h.registry n path hr hexcluded
    have hplan : (loadJob config template seeded.tree).plan.Within (ScannedIfExcluded config tree) :=
      within_searchPlan config tree seeded.tree (templateDir template)
    have hstore (text : String) : storeModule config template text seeded.tree =
        (.ok ⟨⟩, seeded.tree) := by
      rw [storeModule, hcache]
    cases ends with
    | failed settle left =>
      obtain ⟨hregistry, _⟩ := Job.settle_within hplan hseeded settle
      exact ⟨⟨left.tree ▸ htree, left.registry ▸ hregistry⟩, nofun⟩
    | @emitted settled p files later settle store left =>
      obtain ⟨hregistry, htable⟩ := Job.settle_within hplan hseeded settle
      rw [hstore] at store
      obtain rfl : seeded.tree = files := congrArg Prod.snd store
      refine ⟨⟨left.tree ▸ htree, left.registry ▸ hregistry⟩, ?_⟩
      rintro _ ⟨⟩ path hpath
      obtain ⟨kind, n, _, hn⟩ := SymbolTable.found_of_mem_dependencies hpath
      exact ⟨n, htable settled rfl kind n path hn⟩
    | unstored _ store =>
      rw [hstore] at store
      cases store

/-- **Excluded files are found by the scan only.** In a build that begins with an empty registry, whatever is
    loaded and without a store, a file that is excluded is recorded as a helper, or listed among the
    dependencies of a load, only if it is one of the files that the scan of the helper directories finds. In
    particular, no such file is found or listed if there are no helper directories. -/
theorem excluded_only_scanned {tree : FileTree} {journal : Journal} (hcache : config.cacheDir = none)
    {done : List (LoadCall × Except LoadError Loaded)}
    (h : Served config { tree, registry := {}, journal } done build) :
    (∀ n path, build.registry.path? n = some path → config.excludes path = true →
      (n, path) ∈ helpersIn tree config.helperExtension config.helperDirs) ∧
    ∀ call loaded, (call, .ok loaded) ∈ done → ∀ path ∈ loaded.dependencies,
      config.excludes path = true →
        ∃ n, (n, path) ∈ helpersIn tree config.helperExtension config.helperDirs := by
  have hall : build.Screened config tree ∧ ∀ call loaded, (call, .ok loaded) ∈ done →
      ∀ path ∈ loaded.dependencies, ∃ n, ScannedIfExcluded config tree n path := by
    induction h with
    | start =>
      refine ⟨⟨⟨tree.now, rfl⟩, fun n path hpath => ?_⟩, nofun⟩
      cases hpath
    | @call done build _ call ih =>
      obtain ⟨hbuild, hdone⟩ := ih
      have hcall : (call.run config build).2.Screened config tree ∧
          ∀ loaded, (call.run config build).1 = .ok loaded →
            ∀ path ∈ loaded.dependencies, ∃ n, ScannedIfExcluded config tree n path := by
        rcases call.run_eq config build with ⟨source, _, hrun⟩ | ⟨_, error, hrun⟩
        · rw [hrun]
          exact load_within hcache hbuild (load_ends ..)
        · rw [hrun]
          exact ⟨hbuild, nofun⟩
      refine ⟨hcall.1, fun other loaded hm => ?_⟩
      rcases List.mem_cons.mp hm with e | hm
      · obtain ⟨rfl, hresult⟩ := Prod.ext_iff.mp e
        exact hcall.2 loaded hresult.symm
      · exact hdone other loaded hm
    | wait _ now ih =>
      obtain ⟨⟨⟨_, hnow⟩, hregistry⟩, hdone⟩ := ih
      exact ⟨⟨⟨now, by rw [hnow]⟩, hregistry⟩, hdone⟩
  obtain ⟨hbuild, hdone⟩ := hall
  refine ⟨hbuild.registry, fun call loaded hm path hpath hexcluded => ?_⟩
  obtain ⟨n, hn⟩ := hdone call loaded hm path hpath
  exact ⟨n, hn hexcluded⟩

end Loads

/-! ## 4. An excluded file that the scan finds -/

/-- The configuration that knows the directory of the helper, and excludes what has an `m` in its path. -/
def screened : Config :=
  { withHelper with exclude := some ⟨"m", .one (.single 'm')⟩ }

/-- The template that calls the helper loads it, and the helper is found. -/
theorem served_screened : ∃ loaded later,
    Served screened { tree := oneHelper }
      [(.given "\x7b\x7bm n\x7d\x7d" ⟨"t.hbs"⟩, .ok loaded)] later ∧
    (∃ listed ∈ loaded.dependencies, listed.components = Path.components ⟨"h/m.js"⟩) ∧
    later.registry.path? "m" = some ⟨"h/m.js"⟩ := by
  let call : LoadCall := .given "\x7b\x7bm n\x7d\x7d" ⟨"t.hbs"⟩
  have hmissed : (storedModule? screened ⟨"t.hbs"⟩).exec { tree := oneHelper } =
      (.ok none, { tree := oneHelper }) := rfl
  obtain ⟨loaded, later, hload, _, _, hlisted, hfound⟩ :=
    load_callsFound hmissed rfl found_oneHelper fun _ => ⟨_, rfl⟩
  have hrun : call.run screened { tree := oneHelper } = (.ok loaded, later) := hload
  exact ⟨loaded, later, .next .start hrun, hlisted, hfound⟩

/-- The helper is among what the scan finds. -/
theorem excluded_only_scanned_screened : screened.cacheDir = none ∧ ∃ loaded later,
    Served screened { tree := oneHelper }
      [(.given "\x7b\x7bm n\x7d\x7d" ⟨"t.hbs"⟩, .ok loaded)] later ∧
    ("m", ⟨"h/m.js"⟩) ∈ helpersIn oneHelper "js" [⟨"h"⟩] := by
  have hcache : screened.cacheDir = none := rfl
  obtain ⟨loaded, later, h, _, hfound⟩ := served_screened
  have hexcluded : screened.excludes ⟨"h/m.js"⟩ = true := by decide +kernel
  exact ⟨hcache, loaded, later, h, (excluded_only_scanned hcache h).1 "m" _ hfound hexcluded⟩

/-- **The scan records a file that is excluded**, and the template that calls the helper lists it. -/
theorem scan_records_excluded : ∃ loaded later,
    Served screened { tree := oneHelper }
      [(.given "\x7b\x7bm n\x7d\x7d" ⟨"t.hbs"⟩, .ok loaded)] later ∧
    screened.cacheDir = none ∧ screened.excludes ⟨"h/m.js"⟩ = true ∧
    later.registry.path? "m" = some ⟨"h/m.js"⟩ ∧
    ∃ listed ∈ loaded.dependencies, listed.components = Path.components ⟨"h/m.js"⟩ := by
  obtain ⟨loaded, later, h, hlisted, hfound⟩ := served_screened
  exact ⟨loaded, later, h, rfl, by decide +kernel, hfound, hlisted⟩

end Stache
