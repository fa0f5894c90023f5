import Stache.Proofs.Job.Interleaved

/-!
# Stored modules are not stale

The entry of a template is served only if it is newer than the template. So if nobody touches a template
while a load of it is running, then nothing was written to it since its entry was stored; where both carry
the same time, nobody knows, and the template is compiled again.

* `Apart`, `HoldsNone` -- what is assumed of the templates and of the store in the beginning;
* `Faithful` -- the invariant of the files: what the entry of a template holds, and when it is newer;
* `Phase.Holds`, `Orderly` -- the invariants of the loads: what they have read stands there still;
* `Effect.faithful`, `Happens.orderly` -- a step keeps them;
* `Interleaved.cleaned_free` -- the store may be cleaned at any time;
* `load_current` -- **a load returns a module that was emitted from what its template holds now**;
* `load_stale` -- a template that is written after it was read and before its module was stored: the module
  of what it held before is served from then on.
-/

namespace Stache

open ModuleStore (entryName)
open FileTree (Stamped Spared Changed Wrote)

/-! ## 1. Invariants -/

/-- Templates that a store can tell apart: none lies in its directory, the digests of their names differ, and
    the names are the paths themselves. -/
structure Apart (dir : Path) (templates : Path → Prop) (cwd : Location) : Prop where
  plain : ∀ p, templates p → '\\' ∉ p.text.toList
  digests : ∀ p q, templates p → templates q →
    Sha256.hexDigest p.storageForm = Sha256.hexDigest q.storageForm → p.storageForm = q.storageForm
  outside : ∀ p, templates p → ¬ dir.placeFrom cwd <+: p.placeFrom cwd

/-- A store holds nothing for the templates. -/
def HoldsNone (dir : Path) (templates : Path → Prop) (tree : FileTree) : Prop :=
  ∀ p, templates p → ∀ content stored,
    tree.entryAt? ((ModuleStore.entry ⟨dir⟩ p).placeFrom tree.cwd) ≠ some (.file content stored)

/-- What the entry of a template holds is the last module that was stored for the template. If the entry is
    newer than the template, then the template still holds what this module was emitted from. -/
def Faithful (dir template : Path) (done : List Act) (tree : FileTree) : Prop :=
  ∀ content stored,
    tree.entryAt? ((ModuleStore.entry ⟨dir⟩ template).placeFrom tree.cwd) = some (.file content stored) →
    stored ≤ tree.now ∧ ∃ last, lastEmission? template done = some last ∧ content = .ofText last.text ∧
      ∀ source written,
        tree.entryAt? (template.placeFrom tree.cwd) = some (.file source written) →
        written < stored → source.text? = some last.source

/-- What a load knows at a phase, whose template carries this time. -/
def Phase.Fits (config : Config) (dir template : Path) (source : String) (done : List Act) (tree : FileTree)
    (modified : Int) : Phase → Prop
  | .begun | .missed => True
  | .timed time => time = modified
  | .fresh => ∀ content stored,
    tree.entryAt? ((ModuleStore.entry ⟨dir⟩ template).placeFrom tree.cwd) = some (.file content stored) →
    ∃ last, lastEmission? template done = some last ∧ last.source = source
  | .emitted loaded => loaded.fromCache = false ∧ Emitted config template source loaded.text
  | .written loaded time => loaded.fromCache = false ∧ Emitted config template source loaded.text ∧
    time ≤ tree.now

/-- The template of a load that is running still holds what the load has read. -/
def Phase.Holds (config : Config) (dir template : Path) (source : String) (done : List Act) (tree : FileTree)
    (phase : Phase) : Prop :=
  ∃ content modified, tree.stat template = .ok (.file content modified) ∧ content.text? = some source ∧
    phase.Fits config dir template source done tree modified

section Step

variable {config : Config} {dir : Path} {templates : Path → Prop} {allowed : World → Location → Prop}
  {world later : World} {new done : List Act} {template : Path}

section Files

variable {tree made : FileTree} {places : Location → Prop}

/-- What is written elsewhere is no matter: if it is the template, then it is not older than its entry. -/
theorem Faithful.ofStamped (h : Faithful dir template done tree) (hs : Stamped places tree made)
    (hp : ¬ places ((ModuleStore.entry ⟨dir⟩ template).placeFrom tree.cwd)) :
    Faithful dir template done made := by
  intro content stored hentry
  rw [hs.cwd] at hentry ⊢
  have hbefore := (hs.old _ content stored hentry).resolve_right fun hplace => hp hplace.1
  obtain ⟨hnow, last, hlast, hcontent, hcurrent⟩ := h content stored hbefore
  have hlater : stored ≤ made.now := Int.le_trans hnow hs.now
  refine ⟨hlater, last, hlast, hcontent, fun source written hsource hnewer => ?_⟩
  rcases hs.old _ source written hsource with hsame | ⟨_, rfl⟩
  · exact hcurrent source written hsame hnewer
  · exact absurd hnewer (Int.not_lt.mpr hlater)

/-- Neither is what is stored for another template. -/
theorem Faithful.ofChanged (h : Faithful dir template done tree) {modified : Int}
    (hc : Changed places { tree with now := modified } made)
    (hentry : ¬ places ((ModuleStore.entry ⟨dir⟩ template).placeFrom tree.cwd))
    (hsource : ¬ places (template.placeFrom tree.cwd)) :
    Faithful dir template done { made with now := tree.now } := by
  have hcwd : made.cwd = tree.cwd := hc.cwd
  intro content stored hheld
  dsimp only at hheld ⊢
  rw [hcwd] at hheld ⊢
  obtain ⟨hnow, last, hlast, hcontent, hcurrent⟩ := h content stored (hc.old _ _ _ hentry hheld)
  refine ⟨hnow, last, hlast, hcontent, fun source written hwritten hnewer => ?_⟩
  exact hcurrent source written (hc.old _ _ _ hsource hwritten) hnewer

/-- The entry that a load writes holds what the template holds. -/
theorem Faithful.ofStored {modified : Int} {place : Location} {last : Emission} {content : Content}
    {time : Int} (hw : Wrote (ModuleStore.entry ⟨dir⟩ template) (.ofText last.text)
      { tree with now := modified } place made)
    (hnow : modified ≤ tree.now) (hlast : lastEmission? template done = some last)
    (houtside : template.placeFrom tree.cwd ≠ place)
    (hstat : tree.stat template = .ok (.file content time)) (htext : content.text? = some last.source) :
    Faithful dir template done { made with now := tree.now } := by
  have hcwd : made.cwd = tree.cwd := hw.changed.cwd
  have hplace : place = (ModuleStore.entry ⟨dir⟩ template).placeFrom tree.cwd := hw.place_eq
  intro held stored hheld
  dsimp only at hheld ⊢
  rw [hcwd, ← hplace] at hheld
  rw [hcwd]
  cases hw.entry.symm.trans hheld
  refine ⟨hnow, last, hlast, rfl, fun source written hwritten _ => ?_⟩
  have hsame := hw.changed.old _ source written houtside hwritten
  cases (FileTree.entryAt?_of_stat hstat).symm.trans hsame
  exact htext

end Files

/-- The invariants of all loads: of which templates they are, what they hold, and that a load that has only
    looked at files has changed nothing. -/
structure Orderly (config : Config) (dir : Path) (templates : Path → Prop) (done : List Act)
    (world : World) : Prop where
  among : ∀ load template stage, world.loads load = some (template, stage) → templates template
  holds : ∀ load template source phase, world.loads load = some (template, .running source phase) →
    phase.Holds config dir template source done world.tree
  emitted : ∀ act ∈ done, ∀ emission, act.emission? = some emission →
    Emitted config emission.template emission.source emission.text
  looks : ∀ load template stage, world.loads load = some (template, stage) → stage.Looks →
    ∀ act ∈ done, act.load = load → act.build.Told act.later
  asked : ∀ load, world.loads load = none → ∀ act ∈ done, act.load ≠ load

/-- In the beginning there are no loads. -/
theorem Orderly.start (tree : FileTree) : Orderly config dir templates [] { tree } where
  among _ _ _ h := by cases h
  holds _ _ _ _ h := by cases h
  emitted _ h := absurd h List.not_mem_nil
  looks _ _ _ h := by cases h
  asked _ _ _ h := absurd h List.not_mem_nil

/-! ## 2. One step keeps the invariants -/

section Keeps

variable {tree : FileTree}

/-- What is stored is stored in the store, where no template stands. -/
theorem Apart.ne_stored (h : Apart dir templates tree.cwd) (hp : templates template) {other : Path}
    {content : Content} {modified : Int} {place : Location} {made : FileTree}
    (hw : Wrote (ModuleStore.entry ⟨dir⟩ other) content { tree with now := modified } place made) :
    template.placeFrom tree.cwd ≠ place := by
  intro e
  refine h.outside template hp ?_
  rw [e, hw.place_eq]
  exact ModuleStore.entry_below ⟨dir⟩ other _

/-- Entries of different templates stand at different places. -/
theorem Apart.entry_ne_stored (h : Apart dir templates tree.cwd) {other : Path} (hp : templates template)
    (ho : templates other) (hne : other ≠ template) {content : Content} {modified : Int} {place : Location}
    {made : FileTree}
    (hw : Wrote (ModuleStore.entry ⟨dir⟩ other) content { tree with now := modified } place made) :
    (ModuleStore.entry ⟨dir⟩ template).placeFrom tree.cwd ≠ place := by
  intro e
  rw [hw.place_eq, ModuleStore.placeFrom_entry, ModuleStore.placeFrom_entry] at e
  have hname : entryName template = entryName other := List.singleton_injective (List.append_cancel_left e)
  have hform := h.digests _ _ hp ho (ModuleStore.digest_of_entryName hname)
  rw [Path.storageForm_eq (h.plain _ hp), Path.storageForm_eq (h.plain _ ho)] at hform
  exact hne (congrArg Path.mk hform).symm

/-- **A step keeps the invariant of the files**, of every template. -/
theorem Effect.faithful (h : Effect dir world new tree) (ho : Orderly config dir templates done world)
    (hapart : Apart dir templates world.tree.cwd) (hp : templates template)
    (hf : Faithful dir template done world.tree) : Faithful dir template (new ++ done) tree := by
  cases h with
  | kept none stamped =>
    have hsame : Faithful dir template done tree :=
      hf.ofStamped stamped fun hn => hn (ModuleStore.entry_below ⟨dir⟩ template _)
    unfold Faithful at hsame ⊢
    rwa [lastEmission?_append_of_none none]
  | @stored act source loaded modified place made running emission wrote =>
    by_cases hsame : act.template = template
    · subst hsame
      obtain ⟨content, time, hstat, htext, _, _, hnow⟩ := ho.holds _ _ _ _ running
      have hlast : lastEmission? act.template (act :: done) = some ⟨act.template, source, loaded.text⟩ :=
        lastEmission?_cons_same emission rfl
      exact .ofStored wrote hnow hlast (hapart.ne_stored hp wrote) hstat htext
    · have hother : Faithful dir template done { made with now := world.tree.now } :=
        hf.ofChanged wrote.changed
          (hapart.entry_ne_stored hp (ho.among _ _ _ running) hsame wrote) (hapart.ne_stored hp wrote)
      unfold Faithful at hother ⊢
      rwa [List.singleton_append, lastEmission?_cons_other emission hsame]

/-- What others do to the files is no matter of a template of a load that is running. -/
theorem Effect.spared (h : Effect dir world new tree) (ho : Orderly config dir templates done world)
    (hapart : Apart dir templates world.tree.cwd) :
    Spared world.Free world.tree tree ∧ world.tree.now ≤ tree.now := by
  cases h with
  | kept _ stamped spared => exact ⟨spared, stamped.now⟩
  | @stored act source loaded modified place made running emission wrote =>
    refine ⟨?_, Int.le_refl _⟩
    have hspared : Spared (· = place) world.tree { made with now := world.tree.now } :=
      ⟨wrote.changed.cwd, wrote.changed.same, fun _ => wrote.changed.isDirAt⟩
    refine hspared.mono ?_
    rintro _ rfl ⟨load, other, _, _, hrunning, hthere⟩
    exact hapart.ne_stored (ho.among _ _ _ hrunning) wrote hthere

/-- **What others do keeps the invariant of a load that is running.** -/
theorem Effect.holds (h : Effect dir world new tree) (ho : Orderly config dir templates done world)
    (hapart : Apart dir templates world.tree.cwd) {load : Nat} {source : String} {phase : Phase}
    (hr : world.loads load = some (template, .running source phase)) :
    phase.Holds config dir template source (new ++ done) tree := by
  obtain ⟨hspared, hnow⟩ := h.spared ho hapart
  obtain ⟨content, modified, hstat, htext, hfits⟩ := ho.holds _ _ _ _ hr
  have hstays := hspared.stat hstat fun hn => hn ⟨load, template, source, phase, hr, rfl⟩
  refine ⟨content, modified, hstays, htext, ?_⟩
  cases phase with
  | begun => trivial
  | missed => trivial
  | timed time => exact hfits
  | emitted loaded => exact hfits
  | written loaded time => exact ⟨hfits.1, hfits.2.1, Int.le_trans hfits.2.2 hnow⟩
  | fresh =>
    intro held stored hentry
    have hp := ho.among _ _ _ hr
    rw [hspared.cwd] at hentry
    cases h with
    | kept none stamped =>
      rw [lastEmission?_append_of_none none]
      exact hfits held stored ((stamped.old _ _ _ hentry).resolve_right fun hn =>
        hn.1 (ModuleStore.entry_below ⟨dir⟩ template _))
    | @stored act other loaded time place made running emission wrote =>
      by_cases hsame : act.template = template
      · -- two loads that hold one template have read the same
        rw [hsame] at running
        obtain ⟨content', modified', hstat', htext', _⟩ := ho.holds _ _ _ _ running
        cases hstat'.symm.trans hstat
        exact ⟨_, lastEmission?_cons_same emission hsame, Option.some.inj (htext'.symm.trans htext)⟩
      · rw [List.singleton_append, lastEmission?_cons_other emission hsame]
        have hne := hapart.entry_ne_stored hp (ho.among _ _ _ running) hsame wrote
        exact hfits held stored (wrote.changed.old _ _ _ hne hentry)

/-- Whatever it knew, a load that has nothing to serve need not know anything. -/
theorem Phase.Holds.missed {source : String} {phase : Phase}
    (h : phase.Holds config dir template source done tree) :
    Phase.missed.Holds config dir template source done tree := by
  obtain ⟨content, modified, hstat, htext, _⟩ := h
  exact ⟨content, modified, hstat, htext, trivial⟩

/-- A load that takes a step still knows what it has to, if it has not come to an end. -/
theorem Advance.holds {build later : Build} {stage next : Stage}
    (h : Advance config dir template build stage next later) (hf : Faithful dir template done build.tree)
    (hr : ∀ source phase, stage = .running source phase →
      phase.Holds config dir template source done build.tree) {source : String} {phase : Phase}
    (hn : next = .running source phase) : phase.Holds config dir template source done later.tree := by
  cases h with
  | read hread =>
    cases hn
    obtain ⟨place, content, modified, hplace, hentry, htext⟩ := FileTree.readText_eq_ok.mp hread
    exact ⟨content, modified, FileTree.stat_eq_ok.mpr ⟨place, hplace, hentry⟩, htext, trivial⟩
  | timed hstat =>
    cases hn
    obtain ⟨content, modified, hfile, htext, _⟩ := hr _ _ rfl
    cases hstat.symm.trans hfile
    exact ⟨content, modified, hfile, htext, rfl⟩
  | untimed _ told | stale _ told | unserved _ told =>
    cases hn
    rw [told.tree]
    exact (hr _ _ rfl).missed
  | fresh hheld newer =>
    cases hn
    obtain ⟨content, modified, hfile, htext, htime⟩ := hr _ _ rfl
    refine ⟨content, modified, hfile, htext, fun held stored hentry => ?_⟩
    -- the entry is newer than the template, which holds what its module was emitted from
    obtain ⟨_, last, hlast, _, hcurrent⟩ := hf held stored hentry
    cases (FileTree.entryAt?_of_stat hheld).symm.trans hentry
    have hlt : modified < stored := htime ▸ newer
    have hholds := hcurrent _ _ (FileTree.entryAt?_of_stat hfile) hlt
    exact ⟨last, hlast, Option.some.inj (hholds.symm.trans htext)⟩
  | compiled emitted new htree =>
    cases hn
    obtain ⟨content, modified, hfile, htext, _⟩ := hr _ _ rfl
    rw [htree]
    exact ⟨content, modified, hfile, htext, new, emitted⟩
  | made hmake =>
    cases hn
    obtain ⟨content, modified, hfile, htext, hemitted⟩ := hr _ _ rfl
    exact ⟨content, modified, (FileTree.makeDir_changed hmake).spared.stat hfile id, htext, hemitted⟩
  | written =>
    cases hn
    obtain ⟨content, modified, hfile, htext, new, emitted⟩ := hr _ _ rfl
    exact ⟨content, modified, hfile, htext, new, emitted, Int.le_refl _⟩
  | unread | served | refused | unwritten | stored | unstored => cases hn

/-- **A step keeps the invariants of the loads.** -/
theorem Happens.orderly
    (h : Happens config dir templates World.Free world new later)
    (ho : Orderly config dir templates done world) (hapart : Apart dir templates world.tree.cwd)
    (hf : ∀ template, templates template → Faithful dir template done world.tree) :
    Orderly config dir templates (new ++ done) later where
  among load template stage hl := by
    cases h.comes hl with
    | stays before => exact ho.among _ _ _ before
    | asked _ among => exact among
    | advanced act before => exact ho.among _ _ _ before
  holds load template source phase hl := by
    generalize hstage : Stage.running source phase = next at hl
    cases h.comes hl with
    | stays before =>
      subst hstage
      exact h.effect.holds ho hapart before
    | asked => cases hstage
    | advanced act before tree left step =>
      have hnone : ∀ other ∈ [act], other.emission? = none :=
        List.forall_mem_singleton.mpr (Act.emission?_of_running hstage.symm)
      have hfaithful := hf _ (ho.among _ _ _ before)
      rw [← tree] at hfaithful
      have hholds : phase.Holds config dir act.template source done act.later.tree := by
        refine step.holds hfaithful (fun source' phase' hbegun => ?_) hstage.symm
        rw [hbegun] at before
        rw [tree]
        exact ho.holds _ _ _ _ before
      rw [left]
      unfold Phase.Holds Phase.Fits at hholds ⊢
      rwa [lastEmission?_append_of_none hnone]
  emitted act hact emission he := by
    rcases List.mem_append.mp hact with hnew | hdone
    · cases h with
      | advanced other h =>
        obtain rfl := List.mem_singleton.mp hnew
        obtain ⟨source, loaded, modified, hstage, rfl⟩ := Act.emission?_eq_some he
        rw [hstage] at h
        obtain ⟨_, _, _, _, _, hemitted, _⟩ := ho.holds _ _ _ _ h
        exact hemitted
      | _ => cases hnew
    · exact ho.emitted act hdone emission he
  looks load template stage hl hlooks act hact hload := by
    cases h.comes hl with
    | stays before others =>
      rcases List.mem_append.mp hact with hnew | hdone
      · exact absurd hload (others act hnew)
      · exact ho.looks _ _ _ before hlooks act hdone hload
    | asked before => exact absurd hload (ho.asked load before act hact)
    | advanced other before _ _ step =>
      obtain ⟨hbegun, htold⟩ := step.told hlooks
      rcases List.mem_cons.mp hact with rfl | hdone
      · exact htold
      · exact ho.looks _ _ _ before hbegun act hdone hload
  asked load hnone act hact := by
    obtain ⟨hbefore, hother⟩ := h.unasked hnone
    rcases List.mem_append.mp hact with hnew | hdone
    · exact hother act hnew
    · exact ho.asked load hbefore act hdone

end Keeps

end Step

/-! ## 3. A store with one template -/

/-- A store tells one template apart. -/
theorem apart_oneHelper : Apart ⟨"c"⟩ (· = ⟨"t.hbs"⟩) oneHelper.cwd where
  plain := by
    rintro _ rfl
    decide
  digests := by
    rintro _ _ rfl rfl _
    rfl
  outside := by
    rintro _ rfl
    decide

/-- There is nothing in the store. -/
theorem empty_oneHelper : HoldsNone ⟨"c"⟩ (· = ⟨"t.hbs"⟩) oneHelper := by
  rintro _ rfl content stored hentry
  have hnone : (oneHelper.entryAt?
      ((ModuleStore.entry ⟨⟨"c"⟩⟩ ⟨"t.hbs"⟩).placeFrom oneHelper.cwd)).isNone = true := by decide +kernel
  rw [hentry] at hnone
  cases hnone

/-- Files with a template that holds this source, which is older than what is written next, and with a store
    that has room for its module and holds none. -/
structure Ready (tree : FileTree) (source : String) : Prop where
  missed : (ModuleStore.lookup ⟨⟨"c"⟩⟩ ⟨"t.hbs"⟩ tree []).1.toOption = some none
  stores : (ModuleStore.insert ⟨⟨"c"⟩⟩ ⟨"t.hbs"⟩ "" tree).1.isOk = true
  there : tree.locate ⟨"t.hbs"⟩ = .ok ["t.hbs"]
  entry : ∃ modified, tree.entryAt? ["t.hbs"] = some (.file (.ofText source) modified) ∧ modified < tree.now

/-- A load that has read the empty source comes to its end, and the next load of the template is served the
    blank module, whatever the template holds by then. -/
theorem Ready.loads {tree : FileTree} {source : String} (h : Ready tree source) :
    ∃ loaded build last, (load storing "" ⟨"t.hbs"⟩).exec { tree } = (.ok loaded, build) ∧
      (loadFile storing ⟨"t.hbs"⟩).exec build = (.ok ⟨blankModule, [], 0, true⟩, last) ∧
      last.tree.readText ⟨"t.hbs"⟩ = .ok source := by
  have hdir : storing.cacheDir = some ⟨"c"⟩ := rfl
  obtain ⟨modified, hentry, hold⟩ := h.entry
  obtain ⟨missed, hmissed⟩ := missed_of_lookup h.missed
  obtain ⟨loaded, build, hload, hcompiled⟩ := load_of_settles hmissed rfl
    (fun journal => Job.settles_empty _ _ _ journal) (stores_of_insert h.stores)
  obtain ⟨_, _, _, _, _, _, hblank, _⟩ := load_listed hload hcompiled
  have hfar : ¬ IsEntry ["t.hbs"] := fun ⟨_, e⟩ => ModuleStore.ne_entryName _ (by decide) (Option.some.inj e)
  obtain ⟨last, hlast⟩ := served_again hdir hload hcompiled h.there hentry (fun e => hfar ⟨_, e⟩) hold source
  rw [hblank rfl] at hlast
  -- neither of the two loads touches the template
  have hcwd : build.tree.cwd = tree.cwd := (load_changed hload).cwd
  rw [FileTree.place_of_locate h.there] at hfar
  have hstays : build.tree.stat ⟨"t.hbs"⟩ = .ok (.file (.ofText source) modified) :=
    (load_changed hload).spared.stat (FileTree.stat_eq_ok.mpr ⟨_, h.there, hentry⟩) hfar
  have hagain : last.tree.stat ⟨"t.hbs"⟩ = .ok (.file (.ofText source) modified) :=
    (load_changed hlast).spared.stat hstays (hcwd ▸ hfar)
  have hread := FileTree.readText_of_stat hstays (FileTree.text?_ofText source)
  exact ⟨loaded, build, last, hload, (loadFile_of_source hread).trans hlast,
    FileTree.readText_of_stat hagain (FileTree.text?_ofText source)⟩

/-- So it may happen, with no load running beside the second one. -/
theorem Ready.served {allowed : World → Location → Prop} {done : List Act} {world : World} {source : String}
    (h : Ready world.tree source)
    (hi : Interleaved storing ⟨"c"⟩ (· = ⟨"t.hbs"⟩) allowed oneHelper done world)
    (hfirst : world.loads 0 = some (⟨"t.hbs"⟩, .running "" .begun))
    (hothers : ∀ load, load ≠ 0 → world.loads load = none) :
    ∃ done act before later, Interleaved storing ⟨"c"⟩ (· = ⟨"t.hbs"⟩) allowed oneHelper done before ∧
      Happens storing ⟨"c"⟩ (· = ⟨"t.hbs"⟩) allowed before [act] later ∧
      act.template = ⟨"t.hbs"⟩ ∧ act.next = .ended (.ok ⟨blankModule, [], 0, true⟩) ∧
      later.tree.readText ⟨"t.hbs"⟩ = .ok source ∧
      ∀ load, load ≠ act.load → ∀ template source phase,
        before.loads load ≠ some (template, .running source phase) := by
  have hdir : storing.cacheDir = some ⟨"c"⟩ := rfl
  obtain ⟨loaded, build, last, hload, hlast, hread⟩ := h.loads
  obtain ⟨_, hended⟩ := hi.alone hfirst (load_alone hdir "" hload)
  have hasked := hended.next (.asked 1 (hothers 1 (by decide)) (by rfl))
  obtain ⟨_, act, before, hbefore, hstep, hact, htemplate, hnext, hloads⟩ :=
    hasked.returns (if_pos rfl) nofun (loadFile_alone hdir hlast)
  refine ⟨_, act, before, _, hbefore, hstep, htemplate, hnext, hread, fun load hne template _ _ e => ?_⟩
  rw [hact] at hne
  rw [hloads load hne] at e
  by_cases hzero : load = 0
  · subst hzero
    cases e
  · have hnone := hothers load hzero
    unfold World.put at e
    dsimp only at e
    rw [if_neg hne, if_neg hzero, hnone] at e
    cases e

theorem ready_oneHelper : Ready oneHelper "" where
  missed := lookup_oneHelper
  stores := insert_oneHelper
  there := template_oneHelper.1
  entry := ⟨0, template_oneHelper.2.1, by decide⟩

/-- The template holds nothing, and is read by a load. -/
theorem read_oneHelper (allowed : World → Location → Prop) : ∃ done,
    Interleaved storing ⟨"c"⟩ (· = ⟨"t.hbs"⟩) allowed oneHelper done
      (({ tree := oneHelper } : World).put 0 ⟨"t.hbs"⟩ (.running "" .begun)) := by
  have hread : oneHelper.readText ⟨"t.hbs"⟩ = .ok "" :=
    FileTree.readText_eq_ok.mpr ⟨_, _, _, template_oneHelper.1, template_oneHelper.2.1, FileTree.text?_ofText ""⟩
  have hasked : Interleaved storing ⟨"c"⟩ (· = ⟨"t.hbs"⟩) allowed oneHelper []
      (({ tree := oneHelper } : World).put 0 ⟨"t.hbs"⟩ .asked) := Interleaved.start.next (.asked 0 rfl (by rfl))
  have halone : Alone storing ⟨"c"⟩ ⟨"t.hbs"⟩ .asked ⟨oneHelper, {}, []⟩ (.running "" .begun)
      ⟨oneHelper, {}, []⟩ := Alone.start.step (.read hread)
  obtain ⟨acts, hacts⟩ := hasked.alone (if_pos rfl) halone
  rw [World.put_put] at hacts
  exact ⟨_, hacts⟩

/-! ## 4. What a load returns -/

section Returned

variable {config : Config} {dir : Path} {templates : Path → Prop} {start : FileTree} {world later : World}
  {done : List Act}

/-- **Whatever happens keeps the invariants**, if the store holds nothing for the templates in the beginning,
    and nobody touches the template of a load that is running. -/
theorem Interleaved.keeps (hapart : Apart dir templates start.cwd) (hempty : HoldsNone dir templates start)
    (h : Interleaved config dir templates World.Free start done world) :
    world.tree.cwd = start.cwd ∧ Orderly config dir templates done world ∧
      ∀ template, templates template → Faithful dir template done world.tree := by
  induction h with
  | start =>
    exact ⟨rfl, .start start, fun template hp content stored hentry =>
      absurd hentry (hempty template hp content stored)⟩
  | next _ step ih =>
    obtain ⟨hcwd, ho, hf⟩ := ih
    rw [← hcwd] at hapart
    obtain ⟨hspared, _⟩ := step.effect.spared ho hapart
    exact ⟨hspared.cwd.trans hcwd, step.orderly ho hapart hf,
      fun template hp => step.effect.faithful ho hapart hp (hf template hp)⟩

/-- So the store may be cleaned at any time: no load minds. -/
theorem Interleaved.cleaned_free (hapart : Apart dir templates start.cwd)
    (hempty : HoldsNone dir templates start)
    (hnames : ∀ names, world.tree.list dir = .ok names → ∀ name ∈ names, '/' ∉ name.toList)
    (h : Interleaved config dir templates World.Free start done world) :
    Interleaved config dir templates World.Free start done
      { world with tree := (ModuleStore.clean ⟨dir⟩ world.tree).2 } := by
  obtain ⟨hcwd, ho, _⟩ := h.keeps hapart hempty
  refine h.cleaned fun tree htree path hpath => ?_
  rintro ⟨load, template, source, phase, hload, hplace⟩
  have hbelow : dir.placeFrom tree.cwd <+: path.placeFrom tree.cwd :=
    ModuleStore.entries_below ⟨dir⟩ hnames hpath tree.cwd
  refine hapart.outside template (ho.among _ _ _ hload) ?_
  rw [← hcwd, ← htree]
  exact hplace ▸ hbelow

/-- **A load that is left alone with its template returns a module that was emitted from what the template
    holds now**, whatever other loads do in the meantime. If it does not compile the template itself, then it
    returns the last module that was stored for the template; all its steps wrote messages at most: it made no
    probe, and changed neither the files nor what is known about helpers. -/
theorem load_current (hapart : Apart dir templates start.cwd) (hempty : HoldsNone dir templates start)
    (h : Interleaved config dir templates World.Free start done world)
    {act : Act}
    (step : Happens config dir templates World.Free world [act] later)
    {loaded : Loaded} (hr : act.next = .ended (.ok loaded)) :
    ∃ source, later.tree.readText act.template = .ok source ∧
      Emitted config act.template source loaded.text ∧
      (loaded.fromCache = true → loaded = ⟨loaded.text, [], 0, true⟩ ∧
        lastEmission? act.template done = some ⟨act.template, source, loaded.text⟩ ∧
        ∀ other ∈ act :: done, other.load = act.load → other.build.Told other.later) := by
  obtain ⟨hcwd, ho, hf⟩ := h.keeps hapart hempty
  rw [← hcwd] at hapart
  have heffect := step.effect
  cases step with
  | advanced _ hload htree hstep =>
    obtain ⟨load, template, stage, build, next, last⟩ := act
    dsimp only at hload htree hstep hr
    subst hr
    have hp := ho.among _ _ _ hload
    cases hstep with
    | @served source text _ hread told =>
      obtain ⟨content, modified, hstat, htext, hfresh⟩ := ho.holds _ _ _ _ hload
      rw [htree] at hread
      obtain ⟨place, held, stored, hplace, hentry, hheld⟩ := FileTree.readText_eq_ok.mp hread
      rw [FileTree.place_of_locate hplace] at hentry
      obtain ⟨_, ⟨other, from', text'⟩, hlast, rfl, _⟩ := hf template hp held stored hentry
      obtain ⟨_, hlast', rfl⟩ := hfresh _ stored hentry
      cases hlast.symm.trans hlast'
      obtain rfl : text' = text := by
        rw [FileTree.text?_ofText] at hheld
        exact Option.some.inj hheld
      obtain ⟨hother, before, hbefore, hemission⟩ := lastEmission?_eq_some hlast
      obtain rfl : other = template := hother
      refine ⟨from', ?_, ho.emitted before hbefore _ hemission, fun _ => ⟨rfl, hlast, ?_⟩⟩
      · show last.tree.readText other = .ok from'
        rw [told.tree, htree]
        exact FileTree.readText_of_stat hstat htext
      · rintro act hact hsame
        rcases List.mem_cons.mp hact with rfl | hdone
        · exact told
        · exact ho.looks _ _ _ hload trivial act hdone hsame
    | @stored source _ modified tree _ _ told =>
      obtain ⟨content, time, hstat, htext, hnew, hemitted, _⟩ := ho.holds _ _ _ _ hload
      have hstays := (heffect.spared ho hapart).1.stat hstat fun hn => hn ⟨_, _, _, _, hload, rfl⟩
      refine ⟨source, FileTree.readText_of_stat hstays htext, hemitted, fun hserved => ?_⟩
      rw [hnew] at hserved
      cases hserved

end Returned

/-- If nobody touches the template, then the second load returns what the first one emitted from what the
    template holds, and learns nothing. -/
theorem load_current_storing : ∃ done act before later,
    Apart ⟨"c"⟩ (· = ⟨"t.hbs"⟩) oneHelper.cwd ∧ HoldsNone ⟨"c"⟩ (· = ⟨"t.hbs"⟩) oneHelper ∧
    Interleaved storing ⟨"c"⟩ (· = ⟨"t.hbs"⟩) World.Free oneHelper done before ∧
    Happens storing ⟨"c"⟩ (· = ⟨"t.hbs"⟩) World.Free before [act] later ∧
    act.next = .ended (.ok ⟨blankModule, [], 0, true⟩) ∧
    later.tree.readText ⟨"t.hbs"⟩ = .ok "" ∧ Emitted storing ⟨"t.hbs"⟩ "" blankModule ∧
    lastEmission? ⟨"t.hbs"⟩ done = some ⟨⟨"t.hbs"⟩, "", blankModule⟩ ∧
    ∀ other ∈ act :: done, other.load = act.load → other.build.Told other.later := by
  obtain ⟨_, hread⟩ := read_oneHelper World.Free
  obtain ⟨done, act, before, later, hbefore, hstep, htemplate, hnext, htext, _⟩ :=
    ready_oneHelper.served hread rfl fun load hload => if_neg hload
  obtain ⟨source, hsource, hemitted, hserved⟩ :=
    load_current apart_oneHelper empty_oneHelper hbefore hstep hnext
  obtain ⟨_, hlast, htold⟩ := hserved rfl
  rw [htemplate] at hsource hemitted hlast
  cases hsource.symm.trans htext
  exact ⟨done, act, before, later, apart_oneHelper, empty_oneHelper, hbefore, hstep, hnext, htext, hemitted,
    hlast, htold⟩

/-- The template is written again, and time passes. -/
def rewritten : FileTree :=
  { oneHelper.insertAt ["t.hbs"] (.file (.ofText "x") 1) with now := 2 }

theorem ready_rewritten : Ready rewritten "x" where
  missed := by decide +kernel
  stores := by decide +kernel
  there := rfl
  entry := by
    refine ⟨1, ?_, by decide⟩
    show FileTree.entryAt? (FileTree.insertAt _ _ _) _ = _
    rw [FileTree.entryAt?_insertAt (by decide), if_pos rfl]

/-- **A load that returns a module of what the template held before.** The template was written while an
    earlier load was running, which had read it before and stored its module afterwards. No other load is
    running beside the one that is served. -/
theorem load_stale : ∃ done act before later,
    Apart ⟨"c"⟩ (· = ⟨"t.hbs"⟩) oneHelper.cwd ∧ HoldsNone ⟨"c"⟩ (· = ⟨"t.hbs"⟩) oneHelper ∧
    Interleaved storing ⟨"c"⟩ (· = ⟨"t.hbs"⟩) (fun _ _ => True) oneHelper done before ∧
    Happens storing ⟨"c"⟩ (· = ⟨"t.hbs"⟩) (fun _ _ => True) before [act] later ∧
    act.template = ⟨"t.hbs"⟩ ∧ act.next = .ended (.ok ⟨blankModule, [], 0, true⟩) ∧
    later.tree.readText ⟨"t.hbs"⟩ = .ok "x" ∧ ¬ Emitted storing ⟨"t.hbs"⟩ "x" blankModule ∧
    ∀ load, load ≠ act.load → ∀ template source phase,
      before.loads load ≠ some (template, .running source phase) := by
  obtain ⟨_, hread⟩ := read_oneHelper fun _ _ => True
  have hwrite : oneHelper.replaceFile ⟨"t.hbs"⟩ (.ofText "x") =
      .ok (oneHelper.insertAt ["t.hbs"] (.file (.ofText "x") 1)) := rfl
  have hwritten := hread.next (.written (by decide) trivial hwrite)
  have hwaited := hwritten.next (.waited (show (1 : Int) ≤ 2 by decide))
  obtain ⟨done, act, before, later, hbefore, hstep, htemplate, hnext, htext, hothers⟩ :=
    ready_rewritten.served hwaited rfl fun load hload => if_neg hload
  refine ⟨done, act, before, later, apart_oneHelper, empty_oneHelper, hbefore, hstep, htemplate, hnext, htext,
    ?_, hothers⟩
  intro hemitted
  exact absurd hemitted.eq_empty (by decide)

end Stache
