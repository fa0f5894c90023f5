import Stache.Proofs.Files.Clock
import Stache.Proofs.Job.Modules
import Stache.Proofs.Job.Store

/-!
# Modules that are served

With a store a load may be served the module of an earlier one. The entry of a template is told by its path
alone, so what is served is the module that was emitted last for this entry, from whatever source it was.
Nothing but the text is stored.

* `IsEntry`, `load_changed` -- a load writes entries at most;
* `latest?` -- the latest compilation for an entry;
* `Holds`, `holds_served` -- the invariant of a sequence of calls: what the entry holds;
* `served_again` -- what was compiled is served from then on;
* `load_returns` -- **a load that compiles comes to what it comes to without a store; a load that is served
  returns the text of the latest compilation for its entry**;
* `served_other_source` -- a load that is served the module of another source;
* `load_lists` -- **a load that compiles lists what its module loads; a load that is served lists nothing**;
* `served_lists_nothing` -- a load that is served a module that loads a file, and does not list it.
-/

namespace Stache

open ModuleStore (entryName)
open FileTree (Changed Wrote Written nowhere)

/-- The latest compilation for the entry of a template: the call, and what it came to. -/
def latest? (template : Path) : List (LoadCall × Except LoadError Loaded) → Option (LoadCall × Loaded)
  | [] => none
  | (call, .ok loaded) :: done =>
    if entryName call.template = entryName template ∧ loaded.fromCache = false then some (call, loaded)
    else latest? template done
  | (_, .error _) :: done => latest? template done

/-! ## 1. What the entries hold -/

/-- What the entry of a template holds: the text of the latest compilation, or if there is none, what stood
    there in the beginning. -/
def Holds (store : ModuleStore) (start : FileTree) (template : Path)
    (done : List (LoadCall × Except LoadError Loaded)) (tree : FileTree) : Prop :=
  match latest? template done with
  | some (_, last) => ∃ place modified, tree.locate (store.entry template) = .ok place ∧
    tree.entryAt? place = some (.file (.ofText last.text) modified)
  | none => ∀ place content modified, place.getLast? = some (entryName template) →
    tree.entryAt? place = some (.file content modified) →
    start.entryAt? place = some (.file content modified)

section Step

variable {store : ModuleStore} {start tree later : FileTree} {template : Path}
  {done : List (LoadCall × Except LoadError Loaded)} {places : Location → Prop}

/-- What is written under other names is no matter. -/
theorem Holds.ofChanged (h : Holds store start template done tree) (hc : Changed places tree later)
    (hp : ∀ place, place.getLast? = some (entryName template) → ¬ places place) :
    Holds store start template done later := by
  unfold Holds at h ⊢
  cases hlast : latest? template done with
  | none =>
    rw [hlast] at h
    intro place content modified hname hentry
    exact h place content modified hname (hc.old place content modified (hp place hname) hentry)
  | some last =>
    rw [hlast] at h
    obtain ⟨place, modified, hplace, hentry⟩ := h
    have hname := store.name_of_locate template hplace
    exact ⟨place, modified, hc.locate hplace, hc.same place _ (hp place hname) hentry⟩

/-- Neither is the time. -/
theorem Holds.ofWait (h : Holds store start template done tree) (now : Int) :
    Holds store start template done { tree with now } := by
  unfold Holds at h ⊢
  rw [tree.locate_now now]
  exact h

/-- A call that does not compile its template is no matter. -/
theorem Holds.ofUncompiled {call : LoadCall} {result : Except LoadError Loaded}
    (hresult : ∀ loaded, result = .ok loaded → loaded.fromCache = true)
    (h : Holds store start template done tree) :
    Holds store start template ((call, result) :: done) tree := by
  unfold Holds at h ⊢
  cases result with
  | error error => exact h
  | ok loaded =>
    rw [latest?, if_neg]
    · exact h
    · rw [hresult loaded rfl]
      exact fun e => nomatch e.2

/-- A call that compiles a template writes its entry. -/
theorem Holds.ofCompiled {call : LoadCall} {loaded : Loaded} {place : Location}
    (hcompiled : loaded.fromCache = false)
    (hw : Wrote (store.entry call.template) (.ofText loaded.text) tree place later)
    (h : Holds store start template done tree) :
    Holds store start template ((call, .ok loaded) :: done) later := by
  -- templates whose names have one digest share an entry
  by_cases hname : entryName call.template = entryName template
  · unfold Holds
    rw [latest?, if_pos ⟨hname, hcompiled⟩]
    refine ⟨place, tree.now, ?_, hw.entry⟩
    rw [← store.entry_eq_of_name template hname]
    exact hw.locate
  · have hother : Holds store start template done later := by
      refine h.ofChanged hw.changed fun there hthere e => ?_
      subst e
      rw [store.name_of_locate call.template hw.locate] at hthere
      exact hname (Option.some.inj hthere)
    unfold Holds at hother ⊢
    rw [latest?, if_neg fun e => hname e.1]
    exact hother

end Step

section Loads

variable {config : Config} {dir : Path} {start build later : Build} {loaded : Loaded}
  {done : List (LoadCall × Except LoadError Loaded)}

/-- With a store the module is put into it. -/
theorem storeModule_eq (hdir : config.cacheDir = some dir) (template : Path) (text : String)
    (tree : FileTree) : storeModule config template text tree =
      ((ModuleStore.insert ⟨dir⟩ template text tree).1.map fun _ => ⟨⟩,
        (ModuleStore.insert ⟨dir⟩ template text tree).2) := by
  rw [storeModule, hdir]

/-- So a module is stored in the entry of its template, or no file is written. -/
theorem storeModule_spec (hdir : config.cacheDir = some dir) (template : Path) (text : String)
    (tree : FileTree) : Written (ModuleStore.entry ⟨dir⟩ template) (.ofText text) tree
      (storeModule config template text tree) := by
  have hw := ModuleStore.insert_spec ⟨dir⟩ template text tree
  rw [storeModule_eq hdir]
  generalize ModuleStore.insert ⟨dir⟩ template text tree = inserted at hw ⊢
  cases hw with
  | wrote hwrote => exact .wrote hwrote
  | failed hkept => exact .failed hkept

/-- The place of an entry of a store. -/
def IsEntry (place : Location) : Prop :=
  ∃ template, place.getLast? = some (entryName template)

/-- To store a module writes at most an entry. -/
theorem storeModule_changed (config : Config) (template : Path) (text : String) (tree : FileTree) :
    Changed IsEntry tree (storeModule config template text tree).2 := by
  cases hdir : config.cacheDir with
  | none =>
    rw [storeModule, hdir]
    exact .refl tree
  | some dir =>
    have hw := storeModule_spec hdir template text tree
    generalize storeModule config template text tree = stored at hw ⊢
    cases hw with
    | wrote hwrote =>
      refine hwrote.changed.mono ?_
      rintro _ rfl
      exact ⟨template, ModuleStore.name_of_locate ⟨dir⟩ template hwrote.locate⟩
    | failed hkept => exact hkept.ofNowhere

/-- So a load writes at most an entry. -/
theorem load_changed {template : Path} {source : String} {result : Except LoadError Loaded}
    (h : (load config source template).exec build = (result, later)) :
    Changed IsEntry build.tree later.tree := by
  have ends := load_ends config template build source
  rw [h] at ends
  cases ends with
  | served _ _ told => exact told.tree ▸ .refl _
  | refused told => exact told.tree ▸ .refl _
  | @compiled seeded _ seeds ends =>
    rw [← seeds.tree]
    cases ends with
    | failed _ left => exact left.tree ▸ .refl _
    | @emitted settled _ _ _ _ store left =>
      have hc := storeModule_changed config template (config.module settled.code template) seeded.tree
      rw [store] at hc
      exact left.tree.symm ▸ hc
    | @unstored settled _ _ _ _ _ store left =>
      have hc := storeModule_changed config template (config.module settled.code template) seeded.tree
      rw [store] at hc
      exact left.tree.symm ▸ hc

/-- **A load** writes the entry of its template if it compiles the template, and no file otherwise. -/
theorem load_writes (hdir : config.cacheDir = some dir) {template : Path} {source : String}
    {result : Except LoadError Loaded × Build} (ends : LoadEnds config template build source result) :
    (∃ loaded place, result.1 = .ok loaded ∧ loaded.fromCache = false ∧
      Wrote (ModuleStore.entry ⟨dir⟩ template) (.ofText loaded.text) build.tree place result.2.tree) ∨
    (∀ loaded, result.1 = .ok loaded → loaded.fromCache = true) ∧
      Changed nowhere build.tree result.2.tree := by
  cases ends with
  | served _ _ told =>
    refine .inr ⟨?_, told.tree ▸ .refl _⟩
    rintro _ ⟨⟩
    rfl
  | refused told => exact .inr ⟨nofun, told.tree ▸ .refl _⟩
  | @compiled seeded _ seeds ends =>
    rw [← seeds.tree]
    cases ends with
    | failed _ left => exact .inr ⟨nofun, left.tree ▸ .refl _⟩
    | @emitted settled _ _ _ _ store left =>
      have hw := storeModule_spec hdir template (config.module settled.code template) seeded.tree
      rw [store] at hw
      cases hw with
      | @wrote _ place _ hwrote => exact .inl ⟨_, place, rfl, rfl, left.tree.symm ▸ hwrote⟩
    | @unstored settled _ _ _ _ _ store left =>
      have hw := storeModule_spec hdir template (config.module settled.code template) seeded.tree
      rw [store] at hw
      cases hw with
      | failed hkept => exact .inr ⟨nofun, left.tree.symm ▸ hkept⟩

/-- **What the entry of a template holds after any number of calls.** -/
theorem holds_served (hdir : config.cacheDir = some dir) (h : Served config start done build)
    (template : Path) : Holds ⟨dir⟩ start.tree template done build.tree := by
  -- by induction on the calls: each of them writes the entry of its own template at most
  induction h with
  | start => exact fun _ _ _ _ h => h
  | @call done build _ call ih =>
    rcases call.run_eq config build with ⟨source, _, hrun⟩ | ⟨_, error, hrun⟩
    · rw [hrun]
      have ends := load_ends config call.template build source
      generalize (load config source call.template).exec build = result at ends ⊢
      rcases load_writes hdir ends with ⟨loaded, place, hresult, hcompiled, hwrote⟩ | ⟨hresult, hkept⟩
      · rw [hresult]
        exact ih.ofCompiled hcompiled hwrote
      · exact (ih.ofChanged hkept fun _ _ => id).ofUncompiled hresult
    · rw [hrun]
      exact ih.ofUncompiled nofun
  | wait _ now ih => exact ih.ofWait now

/-- The latest compilation is one of the calls, made in a build that the calls before it led to. -/
theorem compiled_of_latest? (h : Served config start done build) {template : Path} {call : LoadCall}
    {last : Loaded} (hlast : latest? template done = some (call, last)) :
    entryName call.template = entryName template ∧ last.fromCache = false ∧
      ∃ before earlier later, Served config start before earlier ∧
        call.run config earlier = (.ok last, later) := by
  induction h with
  | start => cases hlast
  | @call done build before other ih =>
    rcases hrun : other.run config build with ⟨error | loaded, later⟩
    · rw [hrun] at hlast
      exact ih hlast
    · rw [hrun, latest?] at hlast
      split at hlast
      · rename_i hcompiled
        cases hlast
        exact ⟨hcompiled.1, hcompiled.2, done, build, later, before, hrun⟩
      · exact ih hlast
  | wait _ _ ih => exact ih hlast

/-! ## 2. Served once more -/

/-- What is looked up is the stored module. -/
theorem storedModule?_of_lookup (hdir : config.cacheDir = some dir) {template : Path} {found : Option String}
    (hlook : ModuleStore.lookup ⟨dir⟩ template build.tree build.journal = (.ok found, build.journal)) :
    (storedModule? config template).exec build = (.ok found, build) := by
  unfold storedModule?
  rw [hdir]
  dsimp only
  rw [BuildM.exec_bind, BuildM.exec_get]
  dsimp only
  rw [hlook]
  rfl

/-- What is looked for is what was written last, as long as the template is older. -/
theorem stored_of_wrote (hdir : config.cacheDir = some dir) {template : Path} {text : String}
    {tree : FileTree} {place there : Location} {entry : Entry}
    (hwrote : Wrote (ModuleStore.entry ⟨dir⟩ template) (.ofText text) tree place build.tree)
    (hthere : tree.locate template = .ok there) (hentry : tree.entryAt? there = some entry)
    (hname : there.getLast? ≠ some (entryName template)) (hold : entry.modified < tree.now) :
    (storedModule? config template).exec build = (.ok (some text), build) :=
  storedModule?_of_lookup hdir
    (ModuleStore.lookup_of_wrote ⟨dir⟩ hwrote hthere hentry hname hold build.journal)

/-- **What was compiled is served from then on**, for whatever source, as long as the template is older than
    its entry. -/
theorem served_again (hdir : config.cacheDir = some dir) {source : String} {template : Path}
    (h : (load config source template).exec build = (.ok loaded, later))
    (hcompiled : loaded.fromCache = false) {there : Location} {entry : Entry}
    (hthere : build.tree.locate template = .ok there) (hentry : build.tree.entryAt? there = some entry)
    (hname : there.getLast? ≠ some (entryName template)) (hold : entry.modified < build.tree.now)
    (again : String) :
    ∃ last, (load config again template).exec later = (.ok ⟨loaded.text, [], 0, true⟩, last) := by
  have ends := load_ends config template build source
  rw [h] at ends
  rcases load_writes hdir ends with ⟨_, place, ⟨⟩, _, hwrote⟩ | ⟨hall, _⟩
  · have hstored := stored_of_wrote hdir hwrote hthere hentry hname hold
    obtain ⟨last, hlast, _⟩ := load_of_stored config template later again hstored
    exact ⟨last, hlast⟩
  · rw [hall loaded rfl] at hcompiled
    cases hcompiled

end Loads

/-- The configuration that knows the directory of the helper, and has a store. -/
def storing : Config :=
  { withHelper with cacheDir := some ⟨"c"⟩ }

/-- The template stands in the working directory, and is older than what is written next. -/
theorem template_oneHelper : oneHelper.locate ⟨"t.hbs"⟩ = .ok ["t.hbs"] ∧
    oneHelper.entryAt? ["t.hbs"] = some (.file (.ofText "") 0) ∧
    ["t.hbs"].getLast? ≠ some (entryName ⟨"t.hbs"⟩) := by
  refine ⟨rfl, ?_, fun h => ModuleStore.ne_entryName _ (by decide) (Option.some.inj h)⟩
  show FileTree.entryAt? (FileTree.insertAt _ _ _) _ = _
  rw [FileTree.entryAt?_insertAt (by decide), if_neg (by decide), FileTree.entryAt?_insertAt (by decide),
    if_neg (by decide), FileTree.entryAt?_insertAt (by decide), if_neg (by decide),
    FileTree.entryAt?_insertAt (by decide), if_pos rfl]

/-- What is not looked up is not found. -/
theorem missed_of_lookup {tree : FileTree}
    (h : (ModuleStore.lookup ⟨⟨"c"⟩⟩ ⟨"t.hbs"⟩ tree []).1.toOption = some none) :
    ∃ missed, (storedModule? storing ⟨"t.hbs"⟩).exec { tree } = (.ok none, missed) := by
  obtain ⟨_, found, hfound, hstored⟩ := storedModule?_spec storing ⟨"t.hbs"⟩ { tree }
  cases found with
  | none => exact ⟨_, Prod.ext hfound rfl⟩
  | some text =>
    obtain ⟨_, ⟨⟩, htext⟩ := hstored text rfl
    rw [htext] at h
    cases h

/-- If one module can be stored, then every module can. -/
theorem stores_of_insert {tree : FileTree}
    (h : (ModuleStore.insert ⟨⟨"c"⟩⟩ ⟨"t.hbs"⟩ "" tree).1.isOk = true) (text : String) :
    ∃ later, storeModule storing ⟨"t.hbs"⟩ text tree = (.ok ⟨⟩, later) := by
  have hdir : storing.cacheDir = some ⟨"c"⟩ := rfl
  rw [ModuleStore.insert_congr _ _ "" text] at h
  rw [storeModule_eq hdir]
  generalize ModuleStore.insert _ _ text tree = inserted at h
  obtain ⟨error | entry, later⟩ := inserted
  · cases h
  · exact ⟨later, rfl⟩

/-- There is no module in the store yet. -/
theorem lookup_oneHelper : (ModuleStore.lookup ⟨⟨"c"⟩⟩ ⟨"t.hbs"⟩ oneHelper []).1.toOption = some none := by
  decide +kernel

/-- There is room for one. -/
theorem insert_oneHelper : (ModuleStore.insert ⟨⟨"c"⟩⟩ ⟨"t.hbs"⟩ "" oneHelper).1.isOk = true := by
  decide +kernel

/-- So every module can be stored. -/
theorem stores_storing (text : String) :
    ∃ tree, storeModule storing ⟨"t.hbs"⟩ text oneHelper = (.ok ⟨⟩, tree) :=
  stores_of_insert insert_oneHelper text

/-- The template that calls the helper is compiled, and from then on its module is served. -/
theorem load_storing : ∃ loaded later,
    (load storing "\x7b\x7bm n\x7d\x7d" ⟨"t.hbs"⟩).exec { tree := oneHelper } = (.ok loaded, later) ∧
    loaded.fromCache = false ∧ LoadsFile loaded.text ⟨"h/m.js"⟩ ∧ loaded.dependencies ≠ [] ∧
    ∀ again, ∃ last, (load storing again ⟨"t.hbs"⟩).exec later = (.ok ⟨loaded.text, [], 0, true⟩, last) := by
  obtain ⟨missed, hmissed⟩ := missed_of_lookup lookup_oneHelper
  obtain ⟨loaded, later, hload, hcompiled, hloads, ⟨listed, hlisted, _⟩, _⟩ :=
    load_callsFound hmissed rfl found_oneHelper stores_storing
  refine ⟨loaded, later, hload, hcompiled, hloads, List.ne_nil_of_mem hlisted, ?_⟩
  obtain ⟨hthere, hentry, hname⟩ := template_oneHelper
  exact served_again rfl hload hcompiled hthere hentry hname (by decide)

section Loads

variable {config : Config} {dir : Path} {start build later : Build} {loaded : Loaded}
  {done : List (LoadCall × Except LoadError Loaded)}

/-! ## 3. What a load returns -/

/-- A call that compiles its template is a load that does. -/
theorem LoadCall.source_of_ok {call : LoadCall} (h : call.run config build = (.ok loaded, later)) :
    ∃ source, call.source? build.tree = some source ∧
      (load config source call.template).exec build = (.ok loaded, later) := by
  rcases call.run_eq config build with ⟨source, hsource, hrun⟩ | ⟨_, error, hrun⟩
  · exact ⟨source, hsource, hrun.symm.trans h⟩
  · rw [hrun] at h
    cases h

/-- **Without a store the same call comes to the same**, if it compiles its template. -/
theorem LoadCall.run_unstored {call : LoadCall} (h : call.run config build = (.ok loaded, later))
    (hcompiled : loaded.fromCache = false) :
    ∃ other, call.run config.unstored build = (.ok loaded, other) := by
  obtain ⟨source, hsource, hload⟩ := LoadCall.source_of_ok h
  obtain ⟨other, hother⟩ := load_unstored hload hcompiled
  rcases call.run_eq config.unstored build with ⟨again, hagain, hrun⟩ | ⟨hnone, _⟩
  · rw [hsource] at hagain
    cases hagain
    exact ⟨other, hrun.trans hother⟩
  · rw [hsource] at hnone
    cases hnone

/-- What is served stands in the entry. -/
theorem served_entry {call : LoadCall} (h : call.run config build = (.ok loaded, later))
    (hserved : loaded.fromCache = true) :
    loaded = ⟨loaded.text, [], 0, true⟩ ∧ ∃ dir place content modified, config.cacheDir = some dir ∧
      build.tree.locate (ModuleStore.entry ⟨dir⟩ call.template) = .ok place ∧
      build.tree.entryAt? place = some (.file content modified) ∧ content.text? = some loaded.text := by
  obtain ⟨source, _, hload⟩ := LoadCall.source_of_ok h
  have ends := load_ends config call.template build source
  rw [hload] at ends
  cases ends with
  | @served dir _ _ hdir found =>
    obtain ⟨place, content, modified, hentry⟩ :=
      FileTree.readText_eq_ok.mp (ModuleStore.lookup_spec ⟨dir⟩ found).1
    exact ⟨rfl, dir, place, content, modified, hdir, hentry⟩
  | compiled _ ends =>
    cases ends with
    | emitted => cases hserved

/-- What is served is the text of the latest compilation for the entry. -/
theorem served_latest (h : Served config start done build) {call : LoadCall}
    (hcall : call.run config build = (.ok loaded, later)) (hserved : loaded.fromCache = true)
    {before : LoadCall} {last : Loaded} (hlast : latest? call.template done = some (before, last)) :
    loaded.text = last.text := by
  obtain ⟨_, dir, place, content, modified, hdir, hplace, hentry, htext⟩ := served_entry hcall hserved
  have hholds := holds_served hdir h call.template
  unfold Holds at hholds
  rw [hlast] at hholds
  obtain ⟨there, time, hthere, hheld⟩ := hholds
  rw [hplace] at hthere
  cases hthere
  rw [hentry] at hheld
  cases hheld
  rw [FileTree.text?_ofText] at htext
  exact (Option.some.inj htext).symm

/-- **What a load returns**, after any number of calls. If it compiles its template, then what the same call
    returns without a store. If it is served, then the text of the latest compilation for its entry, which is
    what that call returned without a store, for the source that it was given; or if there was none, the text
    of a file that stood there in the beginning. -/
theorem load_returns (hdir : config.cacheDir = some dir) (h : Served config start done build)
    {call : LoadCall} (hcall : call.run config build = (.ok loaded, later)) :
    (loaded.fromCache = false → ∃ other, call.run config.unstored build = (.ok loaded, other)) ∧
    (loaded.fromCache = true →
      (∀ before last, latest? call.template done = some (before, last) → loaded.text = last.text ∧
        entryName before.template = entryName call.template ∧
        ∃ done' earlier other, Served config start done' earlier ∧
          before.run config.unstored earlier = (.ok last, other)) ∧
      (latest? call.template done = none → ∃ place content modified,
        build.tree.locate (ModuleStore.entry ⟨dir⟩ call.template) = .ok place ∧
        start.tree.entryAt? place = some (.file content modified) ∧ content.text? = some loaded.text)) := by
  refine ⟨fun hcompiled => LoadCall.run_unstored hcall hcompiled, fun hserved => ⟨?_, ?_⟩⟩
  · intro before last hlast
    obtain ⟨hname, hcompiled, done', earlier, _, hbefore, hrun⟩ := compiled_of_latest? h hlast
    obtain ⟨other, hother⟩ := LoadCall.run_unstored hrun hcompiled
    exact ⟨served_latest h hcall hserved hlast, hname, done', earlier, other, hbefore, hother⟩
  · intro hnone
    obtain ⟨_, store, place, content, modified, hstore, hplace, hentry, htext⟩ :=
      served_entry hcall hserved
    obtain rfl : store = dir := Option.some.inj (hstore.symm.trans hdir)
    have hholds := holds_served hdir h call.template
    unfold Holds at hholds
    rw [hnone] at hholds
    have hname := ModuleStore.name_of_locate ⟨store⟩ call.template hplace
    exact ⟨place, content, modified, hplace, hholds place content modified hname hentry, htext⟩

end Loads

/-- There the module of the template that calls the helper is served for the empty template. It is what the
    earlier call returned without a store. -/
theorem load_returns_storing : ∃ loaded later last,
    storing.cacheDir = some ⟨"c"⟩ ∧
    Served storing { tree := oneHelper }
      [(.given "\x7b\x7bm n\x7d\x7d" ⟨"t.hbs"⟩, .ok loaded)] later ∧
    (LoadCall.given "" ⟨"t.hbs"⟩).run storing later = (.ok ⟨loaded.text, [], 0, true⟩, last) ∧
    ∃ done earlier other, Served storing { tree := oneHelper } done earlier ∧
      (LoadCall.given "\x7b\x7bm n\x7d\x7d" ⟨"t.hbs"⟩).run storing.unstored earlier =
        (.ok loaded, other) := by
  obtain ⟨loaded, later, hload, hcompiled, _, _, hagain⟩ := load_storing
  obtain ⟨last, hlast⟩ := hagain ""
  have hdir : storing.cacheDir = some ⟨"c"⟩ := rfl
  have h : Served storing { tree := oneHelper }
      [(.given "\x7b\x7bm n\x7d\x7d" ⟨"t.hbs"⟩, .ok loaded)] later := .next .start hload
  have hcall : (LoadCall.given "" ⟨"t.hbs"⟩).run storing later =
      (.ok ⟨loaded.text, [], 0, true⟩, last) := hlast
  obtain ⟨_, _, hearlier⟩ := ((load_returns hdir h hcall).2 rfl).1 _ _ (if_pos ⟨rfl, hcompiled⟩)
  exact ⟨loaded, later, last, hdir, h, hcall, hearlier⟩

/-- **A load that is served the module of another source**: without a store the same call returns another
    module. -/
theorem served_other_source : ∃ loaded later last,
    Served storing { tree := oneHelper }
      [(.given "\x7b\x7bm n\x7d\x7d" ⟨"t.hbs"⟩, .ok loaded)] later ∧
    (LoadCall.given "" ⟨"t.hbs"⟩).run storing later = (.ok ⟨loaded.text, [], 0, true⟩, last) ∧
    ∃ other again, (LoadCall.given "" ⟨"t.hbs"⟩).run storing.unstored later = (.ok other, again) ∧
      other.text ≠ loaded.text := by
  obtain ⟨loaded, later, hload, _, hloads, _, hagain⟩ := load_storing
  obtain ⟨last, hlast⟩ := hagain ""
  obtain ⟨other, again, hother, hblank⟩ :=
    @load_empty storing.unstored rfl rfl ⟨"t.hbs"⟩ later
  refine ⟨loaded, later, last, .next .start hload, hlast, other, again, hother, fun hsame => ?_⟩
  rw [← hsame, hblank] at hloads
  exact not_loadsFile_blank _ hloads

section Loads

variable {config : Config} {start build later : Build} {loaded : Loaded}
  {done : List (LoadCall × Except LoadError Loaded)}

/-! ## 4. What a load lists -/

/-- **What a load lists**, after any number of calls. If it compiles its template, then every file that its
    module loads for a name. If it is served, then nothing, although it returns the text of the latest
    compilation for its entry: the same as that call only if that one listed nothing, too. -/
theorem load_lists (h : Served config start done build) {call : LoadCall}
    (hcall : call.run config build = (.ok loaded, later)) :
    (loaded.fromCache = false → ∃ source seeded settled p, call.source? build.tree = some source ∧
      build.Seeded config seeded ∧
      (loadJob config call.template seeded.tree).settle source seeded.registry seeded.journal =
        (.ok settled, p) ∧
      loaded = ⟨config.module settled.code call.template, settled.table.dependencies, settled.passes,
        false⟩ ∧
      (source = "" → loaded.text = blankModule) ∧
      (source ≠ "" → ListsLoads loaded settled.table ⟨config.knownHelpersOnly, p.registry.known⟩
        config.loadsInline source)) ∧
    (loaded.fromCache = true → loaded.dependencies = [] ∧
      ∀ before last, latest? call.template done = some (before, last) → loaded.text = last.text ∧
        (loaded.dependencies = last.dependencies ↔ last.dependencies = [])) := by
  constructor
  · intro hcompiled
    obtain ⟨source, hsource, hload⟩ := LoadCall.source_of_ok hcall
    obtain ⟨seeded, settled, p, hlisted⟩ := load_listed hload hcompiled
    exact ⟨source, seeded, settled, p, hsource, hlisted⟩
  · intro hserved
    obtain ⟨hloaded, _⟩ := served_entry hcall hserved
    have hnone : loaded.dependencies = [] := congrArg Loaded.dependencies hloaded
    refine ⟨hnone, fun before last hlast => ⟨served_latest h hcall hserved hlast, ?_⟩⟩
    rw [hnone]
    exact eq_comm

end Loads

/-- There the template that calls the helper lists what its module loads. -/
theorem load_lists_storing : ∃ loaded later table known,
    Served storing { tree := oneHelper } [] { tree := oneHelper } ∧
    (LoadCall.given "\x7b\x7bm n\x7d\x7d" ⟨"t.hbs"⟩).run storing { tree := oneHelper } =
      (.ok loaded, later) ∧
    loaded.dependencies ≠ [] ∧
    ListsLoads loaded table ⟨true, known⟩ (fun _ => false) "\x7b\x7bm n\x7d\x7d" := by
  obtain ⟨loaded, later, hload, hcompiled, _, hlisted, _⟩ := load_storing
  have hcall : (LoadCall.given "\x7b\x7bm n\x7d\x7d" ⟨"t.hbs"⟩).run storing { tree := oneHelper } =
      (.ok loaded, later) := hload
  obtain ⟨source, _, _, _, hsource, _, _, _, _, hlists⟩ := (load_lists .start hcall).1 hcompiled
  obtain rfl : "\x7b\x7bm n\x7d\x7d" = source := Option.some.inj hsource
  exact ⟨loaded, later, _, _, .start, hcall, hlisted, hlists (by decide)⟩

/-- **A load that is served a module that loads a file, and does not list it**, though the call that stored
    the module did. -/
theorem served_lists_nothing : ∃ loaded later last,
    Served storing { tree := oneHelper }
      [(.given "\x7b\x7bm n\x7d\x7d" ⟨"t.hbs"⟩, .ok loaded)] later ∧
    (LoadCall.given "\x7b\x7bm n\x7d\x7d" ⟨"t.hbs"⟩).run storing later =
      (.ok ⟨loaded.text, [], 0, true⟩, last) ∧
    LoadsFile loaded.text ⟨"h/m.js"⟩ ∧ loaded.dependencies ≠ [] := by
  obtain ⟨loaded, later, hload, _, hloads, hlisted, hagain⟩ := load_storing
  obtain ⟨last, hlast⟩ := hagain "\x7b\x7bm n\x7d\x7d"
  exact ⟨loaded, later, last, .next .start hload, hlast, hloads, hlisted⟩

end Stache
