import Stache.Proofs.Job.Stages

/-!
# Loads that run at the same time

Any number of loads run step by step with one store. Others write and remove files in between, and clean the
store, and time passes.

* `World`, `Happens`, `Interleaved` -- the files and the loads, what may happen, and how often it likes;
* `lastEmission?` -- the last module that was stored for a template;
* `Effect`, `Happens.effect` -- **a step either stores the module of one template, or keeps the store** as far
  as nothing is removed;
* `Interleaved.cleaned`, `Interleaved.alone`, `Interleaved.returns` -- what may be part of what happens: to
  clean the store, and a load with nobody else in between.
-/

namespace Stache

open FileTree (Stamped Spared Changed Wrote nowhere)

/-! ## 1. What happens -/

/-- The files, and the loads by their numbers: of which template, and how far they have come. -/
structure World where
  /-- The files. -/
  tree : FileTree
  /-- The loads that somebody asked for. -/
  loads : Nat → Option (Path × Stage) := fun _ => none

namespace World

/-- A load comes to a stage. -/
def put (world : World) (load : Nat) (template : Path) (stage : Stage) : World :=
  { world with loads := fun other => if other = load then some (template, stage) else world.loads other }

/-- A load that has read the template at this place is running. -/
def Holds (world : World) (place : Location) : Prop :=
  ∃ load template source phase, world.loads load = some (template, .running source phase) ∧
    template.placeFrom world.tree.cwd = place

/-- Nobody minds if the file at this place is written or removed. -/
abbrev Free (world : World) (place : Location) : Prop :=
  ¬ world.Holds place

end World

/-- A step of a load. The build has the registry that the load works with: loaders may share theirs with
    others, who change it between any two steps. -/
structure Act where
  /-- The number of the load. -/
  load : Nat
  /-- Its template. -/
  template : Path
  /-- The stage before the step. -/
  stage : Stage
  /-- The build before the step. -/
  build : Build
  /-- The stage after the step. -/
  next : Stage
  /-- The build after the step. -/
  later : Build

/-- What may happen. Others write and remove files only where it is allowed. To clean the store is to remove
    its entries, one after the other; to write a file bit by bit is to write it more than once. -/
inductive Happens (config : Config) (dir : Path) (templates : Path → Prop)
    (allowed : World → Location → Prop) (world : World) : List Act → World → Prop where
  /-- A file is written outside of the store. -/
  | written {path : Path} {content : Content} {tree : FileTree}
    (outside : ¬ dir.placeFrom world.tree.cwd <+: path.placeFrom world.tree.cwd)
    (free : allowed world (path.placeFrom world.tree.cwd))
    (h : world.tree.replaceFile path content = .ok tree) :
    Happens config dir templates allowed world [] { world with tree }
  /-- A directory is made. -/
  | made {path : Path} {tree : FileTree} (h : world.tree.makeDir path = .ok tree) :
    Happens config dir templates allowed world [] { world with tree }
  /-- A file is removed. -/
  | removed {path : Path} {tree : FileTree} (free : allowed world (path.placeFrom world.tree.cwd))
    (h : world.tree.removeFile path = .ok tree) :
    Happens config dir templates allowed world [] { world with tree }
  /-- Time passes. -/
  | waited {now : Int} (h : world.tree.now ≤ now) :
    Happens config dir templates allowed world [] { world with tree := { world.tree with now } }
  /-- Somebody asks for a template. -/
  | asked {template : Path} (load : Nat) (new : world.loads load = none) (among : templates template) :
    Happens config dir templates allowed world [] (world.put load template .asked)
  /-- A load takes a step. -/
  | advanced (act : Act) (h : world.loads act.load = some (act.template, act.stage))
    (tree : act.build.tree = world.tree)
    (step : Advance config dir act.template act.build act.stage act.next act.later) :
    Happens config dir templates allowed world [act]
      ({ world with tree := act.later.tree }.put act.load act.template act.next)

/-- The worlds that may come of some files, with what the loads did, the latest first. -/
inductive Interleaved (config : Config) (dir : Path) (templates : Path → Prop)
    (allowed : World → Location → Prop) (start : FileTree) : List Act → World → Prop where
  /-- Nothing has happened yet. -/
  | start : Interleaved config dir templates allowed start [] { tree := start }
  /-- Something happens. -/
  | next {done new : List Act} {world later : World}
    (before : Interleaved config dir templates allowed start done world)
    (step : Happens config dir templates allowed world new later) :
    Interleaved config dir templates allowed start (new ++ done) later

/-- A module that was emitted and stored: for which template, from which source. -/
structure Emission where
  /-- The path of the template. -/
  template : Path
  /-- What its file held when it was read. -/
  source : String
  /-- The text of the module. -/
  text : String

/-- What is stored in a step. -/
def Act.emission? (act : Act) : Option Emission :=
  match act.stage, act.next with
  | .running source (.written loaded _), .ended (.ok _) => some ⟨act.template, source, loaded.text⟩
  | _, _ => none

/-- The last module that was stored for a template. -/
def lastEmission? (template : Path) (done : List Act) : Option Emission :=
  (done.filterMap Act.emission?).find? fun emission => emission.template = template

/-! ## 2. One step -/

section Step

variable {config : Config} {dir : Path} {templates : Path → Prop} {allowed : World → Location → Prop}
  {world later : World} {new done : List Act} {template : Path}

theorem lastEmission?_append_of_none (h : ∀ act ∈ new, act.emission? = none) :
    lastEmission? template (new ++ done) = lastEmission? template done := by
  unfold lastEmission?
  rw [List.filterMap_append, List.filterMap_eq_nil_iff.mpr h, List.nil_append]

theorem lastEmission?_cons_same {act : Act} {emission : Emission} (h : act.emission? = some emission)
    (ht : emission.template = template) : lastEmission? template (act :: done) = some emission := by
  unfold lastEmission?
  rw [List.filterMap_cons_some h]
  exact List.find?_cons_of_pos (by simpa using ht)

theorem lastEmission?_cons_other {act : Act} {emission : Emission} (h : act.emission? = some emission)
    (ht : emission.template ≠ template) :
    lastEmission? template (act :: done) = lastEmission? template done := by
  unfold lastEmission?
  rw [List.filterMap_cons_some h]
  exact List.find?_cons_of_neg (by simpa using ht)

/-- The last module that was stored for a template was stored for it, in some step. -/
theorem lastEmission?_eq_some {last : Emission} (h : lastEmission? template done = some last) :
    last.template = template ∧ ∃ act ∈ done, act.emission? = some last := by
  unfold lastEmission? at h
  have htemplate := List.find?_some h
  exact ⟨of_decide_eq_true htemplate, List.mem_filterMap.mp (List.mem_of_find?_eq_some h)⟩

/-- Only a load that has written a module stores it. -/
theorem Act.emission?_eq_some {act : Act} {emission : Emission} (h : act.emission? = some emission) :
    ∃ source loaded modified, act.stage = .running source (.written loaded modified) ∧
      emission = ⟨act.template, source, loaded.text⟩ := by
  unfold Act.emission? at h
  split at h
  · rename_i hstage _
    exact ⟨_, _, _, hstage, (Option.some.inj h).symm⟩
  · cases h

/-- A load that goes on stores nothing. -/
theorem Act.emission?_of_running {act : Act} {source : String} {phase : Phase}
    (h : act.next = .running source phase) : act.emission? = none := by
  unfold Act.emission?
  rw [h]
  split
  · rename_i hnext
    cases hnext
  · rfl

/-- Where a load comes from that has some stage after a step. -/
inductive Comes (config : Config) (dir : Path) (templates : Path → Prop) (world later : World) :
    List Act → Nat → Path → Stage → Prop where
  /-- It took no step. -/
  | stays {new : List Act} {load : Nat} {template : Path} {stage : Stage}
    (before : world.loads load = some (template, stage)) (others : ∀ act ∈ new, act.load ≠ load) :
    Comes config dir templates world later new load template stage
  /-- Somebody asked for it. -/
  | asked {load : Nat} {template : Path} (before : world.loads load = none) (among : templates template) :
    Comes config dir templates world later [] load template .asked
  /-- It took this step. -/
  | advanced (act : Act) (before : world.loads act.load = some (act.template, act.stage))
    (tree : act.build.tree = world.tree) (left : later.tree = act.later.tree)
    (step : Advance config dir act.template act.build act.stage act.next act.later) :
    Comes config dir templates world later [act] act.load act.template act.next

theorem Happens.comes (h : Happens config dir templates allowed world new later) {load : Nat} {stage : Stage}
    (hl : later.loads load = some (template, stage)) :
    Comes config dir templates world later new load template stage := by
  cases h with
  | asked _ hnew among =>
    unfold World.put at hl
    dsimp only at hl
    split at hl
    · subst ‹load = _›
      cases hl
      exact .asked hnew among
    · exact .stays hl (List.forall_mem_nil _)
  | advanced act h tree step =>
    unfold World.put at hl
    dsimp only at hl
    split at hl
    · subst ‹load = _›
      cases hl
      exact .advanced act h tree rfl step
    · exact .stays hl (List.forall_mem_singleton.mpr fun e => ‹¬ load = _› e.symm)
  | _ => exact .stays hl (List.forall_mem_nil _)

/-- Nobody asked before for a load that nobody has asked for. -/
theorem Happens.unasked (h : Happens config dir templates allowed world new later) {load : Nat}
    (hl : later.loads load = none) : world.loads load = none ∧ ∀ act ∈ new, act.load ≠ load := by
  cases h with
  | asked =>
    unfold World.put at hl
    dsimp only at hl
    split at hl
    · cases hl
    · exact ⟨hl, List.forall_mem_nil _⟩
  | advanced act =>
    unfold World.put at hl
    dsimp only at hl
    split at hl
    · cases hl
    · exact ⟨hl, List.forall_mem_singleton.mpr fun e => ‹¬ load = _› e.symm⟩
  | _ => exact ⟨hl, List.forall_mem_nil _⟩

/-- What a step does to the files. -/
inductive Effect (dir : Path) (world : World) : List Act → FileTree → Prop where
  /-- Nothing is stored, what is written is written outside of the store, and nobody touches a template of a
      load that is running. -/
  | kept {new : List Act} {later : FileTree} (none : ∀ act ∈ new, act.emission? = none)
    (stamped : Stamped (fun place => ¬ dir.placeFrom world.tree.cwd <+: place) world.tree later)
    (spared : Spared world.Free world.tree later) : Effect dir world new later
  /-- The module of a template is stored, with the time at which it was written. -/
  | stored {act : Act} {source : String} {loaded : Loaded} {modified : Int} {place : Location}
    {made : FileTree}
    (running : world.loads act.load = some (act.template, .running source (.written loaded modified)))
    (emission : act.emission? = some ⟨act.template, source, loaded.text⟩)
    (wrote : Wrote (ModuleStore.entry ⟨dir⟩ act.template) (.ofText loaded.text)
      { world.tree with now := modified } place made) :
    Effect dir world [act] { made with now := world.tree.now }

/-- A step that changes no file keeps everything. -/
theorem Effect.ofChanged {tree : FileTree} (h : Changed nowhere world.tree tree)
    (hnone : ∀ act ∈ new, act.emission? = none) : Effect dir world new tree :=
  .kept hnone h.stamped (h.spared.mono fun _ => False.elim)

/-- **A step either stores the module of one template, or keeps the store** as far as nothing is removed. -/
theorem Happens.effect
    (h : Happens config dir templates World.Free world new later) :
    Effect dir world new later.tree := by
  have hnil : ∀ act ∈ ([] : List Act), act.emission? = none := List.forall_mem_nil _
  cases h with
  | @written path content tree outside free h =>
    show Effect dir world [] tree
    obtain ⟨place, hwrote⟩ := FileTree.replaceFile_wrote h
    have hplace := hwrote.place_eq
    refine .kept hnil (hwrote.stamped.mono ?_) (hwrote.changed.spared.mono ?_)
    · rintro _ rfl
      rwa [hplace]
    · rintro _ rfl
      rwa [hplace]
  | @made path tree h =>
    show Effect dir world [] tree
    exact .ofChanged (FileTree.makeDir_changed h) hnil
  | @removed path tree free h =>
    show Effect dir world [] tree
    refine .kept hnil (FileTree.removeFile_stamped h) ((FileTree.removeFile_spared h).mono ?_)
    rintro _ rfl
    exact free
  | waited h => exact .kept hnil (.wait h) (.wait world.tree _)
  | asked => exact .ofChanged (.refl _) hnil
  | advanced act h tree step =>
    obtain ⟨load, template, stage, build, next, last⟩ := act
    dsimp only at h tree step
    show Effect dir world _ last.tree
    have hsame (htree : last.tree = build.tree)
        (hnone : Act.emission? ⟨load, template, stage, build, next, last⟩ = none) :
        Effect dir world [⟨load, template, stage, build, next, last⟩] last.tree := by
      rw [htree, tree]
      exact .ofChanged (.refl _) (List.forall_mem_singleton.mpr hnone)
    cases step with
    | made hmake =>
      rw [tree] at hmake
      exact .ofChanged (FileTree.makeDir_changed hmake) (List.forall_mem_singleton.mpr rfl)
    | stored hstore told =>
      rw [tree] at hstore
      obtain ⟨place, hwrote⟩ := FileTree.replaceFile_wrote hstore
      rw [told.tree, tree]
      exact .stored h rfl hwrote
    | read | unread | timed | fresh | written => exact hsame rfl rfl
    | compiled _ _ htree | refused htree => exact hsame htree rfl
    | untimed _ told | stale _ told | served _ told | unserved _ told | unwritten told | unstored told =>
      exact hsame told.tree rfl

/-! ## 3. What may be part of what happens -/

variable {start : FileTree}

theorem World.put_self {load : Nat} {stage : Stage} (h : world.loads load = some (template, stage)) :
    world.put load template stage = world := by
  obtain ⟨tree, loads⟩ := world
  unfold World.put
  congr 1
  funext other
  split
  · subst ‹other = load›
    exact h.symm
  · rfl

theorem World.put_put (world : World) (load : Nat) (template : Path) (tree : FileTree)
    (stage next : Stage) :
    { world.put load template stage with tree }.put load template next =
      { world with tree }.put load template next := by
  unfold World.put
  congr 1
  funext other
  dsimp only
  split
  · rfl
  · rfl

/-- To clean the store is to remove files. -/
theorem Interleaved.cleaned (h : Interleaved config dir templates allowed start done world)
    (hfree : ∀ tree, tree.cwd = world.tree.cwd → ∀ path ∈ ModuleStore.entries ⟨dir⟩ world.tree,
      allowed { world with tree } (path.placeFrom tree.cwd)) :
    Interleaved config dir templates allowed start done
      { world with tree := (ModuleStore.clean ⟨dir⟩ world.tree).2 } := by
  unfold ModuleStore.clean
  generalize ModuleStore.entries ⟨dir⟩ world.tree = entries at hfree
  generalize 0 = removed
  induction entries generalizing world removed with
  | nil => exact h
  | cons entry entries ih =>
    unfold ModuleStore.removeAll
    cases hremove : world.tree.removeFile entry with
    | error error => exact h
    | ok later =>
      obtain ⟨place, _, _, rfl⟩ := FileTree.removeFile_erases hremove
      have hnext := h.next (.removed (hfree _ rfl _ List.mem_cons_self) hremove)
      exact ih hnext (fun tree hcwd path hpath => hfree tree hcwd path (List.mem_cons_of_mem _ hpath)) _

/-- A load may take some steps with nobody else in between. -/
theorem Interleaved.alone {load : Nat} {stage next : Stage} {registry : Registry} {journal : Journal}
    {build : Build} (h : Interleaved config dir templates allowed start done world)
    (hl : world.loads load = some (template, stage))
    (ha : Alone config dir template stage ⟨world.tree, registry, journal⟩ next build) :
    ∃ acts, Interleaved config dir templates allowed start (acts ++ done)
      ({ world with tree := build.tree }.put load template next) := by
  induction ha with
  | start =>
    refine ⟨[], ?_⟩
    rw [World.put_self hl]
    exact h
  | @step next last build final _ hstep ih =>
    obtain ⟨acts, hacts⟩ := ih
    have hnext := hacts.next (.advanced ⟨load, template, next, build, last, final⟩ (if_pos rfl) rfl hstep)
    dsimp only at hnext
    rw [World.put_put] at hnext
    exact ⟨_ :: acts, hnext⟩

/-- So may a load that comes to its end. -/
theorem Interleaved.returns {load : Nat} {stage : Stage} {registry : Registry} {journal : Journal}
    {build : Build} {loaded : Loaded} (h : Interleaved config dir templates allowed start done world)
    (hl : world.loads load = some (template, stage)) (hs : ∀ result, stage ≠ .ended result)
    (ha : Alone config dir template stage ⟨world.tree, registry, journal⟩ (.ended (.ok loaded)) build) :
    ∃ acts act before, Interleaved config dir templates allowed start (acts ++ done) before ∧
      Happens config dir templates allowed before [act]
        ({ world with tree := build.tree }.put load template (.ended (.ok loaded))) ∧
      act.load = load ∧ act.template = template ∧ act.next = .ended (.ok loaded) ∧
      ∀ other, other ≠ load → before.loads other = world.loads other := by
  cases ha with
  | start => exact absurd rfl (hs _)
  | @step next _ later _ hbefore hstep =>
    obtain ⟨acts, hacts⟩ := h.alone hl hbefore
    have hlast : Happens config dir templates allowed ({ world with tree := later.tree }.put load template next)
        [⟨load, template, next, later, .ended (.ok loaded), build⟩] _ :=
      .advanced _ (if_pos rfl) rfl hstep
    dsimp only at hlast
    rw [World.put_put] at hlast
    exact ⟨acts, _, _, hacts, hlast, rfl, rfl, rfl, fun other hother => if_neg hother⟩

end Step

end Stache
