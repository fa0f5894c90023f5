import Stache.Proofs.Files.Clock
import Stache.Proofs.Files.Enclosing
import Stache.Proofs.Job.Hits

/-!
# Entries of different templates

The name of an entry is the digest of the storage form of a path. Where the storage forms of two templates
differ, neither is served what was stored for the other, and to store one changes nothing of what is looked up
for the other. Where the storage forms are the same, the templates share one entry; so every path with a
backslash shares its entry with the path in which slashes stand instead.

* `Path.storageForm_eq_iff`, `Path.exists_same_storageForm` -- the paths that are their own storage form, and
  what the other ones are taken for;
* `IsThere`, `insert_of_isThere` -- the directory of a store, and what is changed where it is there;
* `lookup_insert_of_ne` -- **what is stored under another name is no matter**;
* `StoreHistory`, `Keeps` -- stores one after the other, and what the entry of a template holds then;
* `stored_apart` -- **templates with different storage forms are kept apart, those with one share an entry**;
* `backslash_served` -- a template that is served the module of another one.
-/

namespace Stache

open ModuleStore (entryName)
open FileTree (Changed Wrote)

/-! ## 1. Storage forms -/

namespace Path

/-- There are no backslashes in storage. -/
theorem not_mem_storageForm (p : Path) : '\\' ∉ p.storageForm.toList := by
  unfold storageForm
  dsimp only
  rw [String.toList_ofList]
  intro hm
  obtain ⟨c, _, hc⟩ := List.mem_map.mp hm
  split at hc
  · cases hc
  · exact ‹¬ c = '\\'› hc

/-- **A path is its own storage form** exactly if it has no backslash. -/
theorem storageForm_eq_iff {p : Path} : p.storageForm = p.text ↔ '\\' ∉ p.text.toList :=
  ⟨fun h => h ▸ p.not_mem_storageForm, storageForm_eq⟩

/-- **A path with a backslash** has the storage form of another path, which has none. -/
theorem exists_same_storageForm {p : Path} (h : '\\' ∈ p.text.toList) :
    ∃ q : Path, '\\' ∉ q.text.toList ∧ q ≠ p ∧ q.storageForm = p.storageForm := by
  refine ⟨⟨p.storageForm⟩, p.not_mem_storageForm, fun hsame => ?_, storageForm_eq p.not_mem_storageForm⟩
  exact storageForm_eq_iff.mp (congrArg text hsame) h

end Path

namespace ModuleStore

/-! ## 2. The directory of a store -/

theorem utf8ByteSize_ofList {text : List Char} (h : ∀ c ∈ text, c.val ≤ 127) :
    (String.ofList text).utf8ByteSize = text.length := by
  induction text with
  | nil => rfl
  | cons c text ih =>
    obtain ⟨hc, htext⟩ := List.forall_mem_cons.mp h
    rw [String.ofList_cons, String.utf8ByteSize_append, String.utf8ByteSize_singleton, ih htext,
      Char.utf8Size_eq_one_iff.mpr hc, List.length_cons, Nat.add_comm]

/-- All names of entries have one size. -/
theorem utf8ByteSize_entryName (template : Path) : (entryName template).utf8ByteSize = 77 := by
  have hnarrow : ∀ c ∈ (entryName template).toList, c.val ≤ 127 := by
    intro c hc
    rw [entryName, String.toList_append] at hc
    have hall : ("0123456789abcdef".toList ++ entryEnding.toList).all (·.val ≤ 127) = true := by decide
    refine of_decide_eq_true (List.all_eq_true.mp hall c ?_)
    rcases List.mem_append.mp hc with hc | hc
    · exact List.mem_append_left _ (Sha256.mem_hexDigest hc)
    · exact List.mem_append_right _ hc
  have hsize := utf8ByteSize_ofList hnarrow
  rwa [String.ofList_toList, length_entryName] at hsize

variable (store : ModuleStore) {tree : FileTree}

/-- The paths of all entries begin with one text, which begins with the directory. -/
theorem exists_lead : ∃ lead : String, store.dir.text.toList <+: lead.toList ∧
    ∀ template, (store.entry template).text = lead ++ entryName template := by
  have hentry (template : Path) : store.entry template = store.dir.join ⟨entryName template⟩ := rfl
  simp only [hentry, Path.join, Path.isAbsolute_name (not_mem_entryName _), Bool.false_eq_true, if_false]
  by_cases hstart : store.dir.text.toList = [] ∨ store.dir.text.toList.getLast? = some '/'
  · exact ⟨store.dir.text, List.prefix_rfl, fun template => by rw [if_pos hstart]⟩
  · refine ⟨store.dir.text ++ "/", ?_, fun template => by rw [if_neg hstart]⟩
    rw [String.toList_append]
    exact List.prefix_append _ _

/-- The directory of a store is there, and the paths of its entries are taken. -/
def IsThere (tree : FileTree) : Prop :=
  (∀ template, FileTree.checkSpelling (store.entry template) = .ok ⟨⟩) ∧ ∃ place,
    tree.descend (tree.origin store.dir).1 (tree.origin store.dir).2 = .ok place ∧ tree.isDirAt place = true

variable {store}

theorem isEmptyPart_entryName (template : Path) : Path.isEmptyPart (entryName template).toList = false := by
  have hpart := isNamePart_entryName template
  unfold FileTree.isNamePart at hpart
  simpa using (Bool.and_eq_true_iff.mp hpart).1

theorem entryName_ne_nil (template : Path) : (entryName template).toList ≠ [] := by
  intro hempty
  have hlength := length_entryName template
  rw [hempty] at hlength
  cases hlength

/-- The parts of an entry stand behind those of the directory. -/
theorem origin_entry (tree : FileTree) (template : Path) :
    (tree.origin (store.entry template)).1 = (tree.origin store.dir).1 ∧ ∃ front,
      (tree.origin (store.entry template)).2 = front ++ [(entryName template).toList] ∧
      ((tree.origin store.dir).2 = front ∨ (tree.origin store.dir).2 = front ++ [[]]) :=
  tree.origin_join store.dir (not_mem_entryName template) (entryName_ne_nil template)

/-- What the parts in front of the names of entries lead to. -/
theorem IsThere.descend (h : store.IsThere tree) : ∃ place, tree.isDirAt place = true ∧ ∀ template,
    ∃ front, (tree.origin (store.entry template)).2 = front ++ [(entryName template).toList] ∧
      tree.descend (tree.origin (store.entry template)).1 front = .ok place := by
  obtain ⟨place, hd, hdir⟩ := h.2
  refine ⟨place, hdir, fun template => ?_⟩
  obtain ⟨hstart, front, hjoin, hparts⟩ := origin_entry tree template
  refine ⟨front, hjoin, ?_⟩
  rw [hstart]
  rcases hparts with hparts | hparts
  · rw [hparts] at hd
    exact hd
  · rw [hparts] at hd
    exact (FileTree.descend_concat_nil hdir).mp hd

/-- It is there if there is any entry. -/
theorem isThere_of_locate {template : Path} {there : Location}
    (h : tree.locate (store.entry template) = .ok there) : store.IsThere tree := by
  obtain ⟨hcheck, hd⟩ := FileTree.locate_eq_ok.mp h
  constructor
  · obtain ⟨lead, _, htext⟩ := store.exists_lead
    obtain ⟨hnul, _, hlong⟩ := FileTree.checkSpelling_eq_ok.mp hcheck
    have hsize (template : Path) : (store.entry template).text.utf8ByteSize = lead.utf8ByteSize + 77 := by
      rw [htext, String.utf8ByteSize_append, utf8ByteSize_entryName]
    intro other
    refine FileTree.checkSpelling_eq_ok.mpr ⟨fun hm => ?_, fun hempty => ?_, by rwa [hsize] at hlong ⊢⟩
    · rw [htext, String.toList_append] at hm hnul
      rcases List.mem_append.mp hm with hm | hm
      · exact hnul (List.mem_append_left _ hm)
      · rw [entryName, String.toList_append] at hm
        rcases List.mem_append.mp hm with hm | hm
        · exact absurd (Sha256.mem_hexDigest hm) (by decide)
        · exact absurd hm (by decide)
    · have hzero := hsize other
      rw [hempty, String.utf8ByteSize_empty] at hzero
      omega
  · obtain ⟨hstart, front, hjoin, hparts⟩ := origin_entry tree template
    rw [hstart, hjoin] at hd
    obtain ⟨place, hfront, hlast⟩ := FileTree.descend_append_eq_ok.mp hd
    obtain ⟨next, hnext, _⟩ := FileTree.descend_cons_eq_ok.mp hlast
    have hdir := FileTree.isDirAt_of_enter hnext
    refine ⟨place, ?_, hdir⟩
    rcases hparts with hparts | hparts
    · rwa [hparts]
    · rw [hparts]
      exact (FileTree.descend_concat_nil hdir).mpr hfront

/-- Then it need not be made. -/
theorem IsThere.ensureDir (h : store.IsThere tree) : tree.ensureDir store.dir = (.ok ⟨⟩, tree) := by
  by_cases hempty : store.dir.text = ""
  · -- the empty path is the working directory, and is never made
    obtain ⟨⟨text⟩⟩ := store
    obtain rfl : text = "" := hempty
    rfl
  · obtain ⟨hcheck, place, hd, hdir⟩ := h
    refine FileTree.ensureDir_of_hasDir (FileTree.hasDir_iff.mpr ⟨place, ?_, hdir⟩)
    obtain ⟨lead, hlead, htext⟩ := store.exists_lead
    refine FileTree.locate_eq_ok.mpr ⟨FileTree.checkSpelling_of_sublist (hcheck ⟨""⟩) hempty ?_, hd⟩
    rw [htext, String.toList_append]
    exact (hlead.trans (List.prefix_append _ _)).sublist

/-- **Where the directory of a store is there**, to store a module writes the entry or nothing. -/
theorem insert_of_isThere (h : store.IsThere tree) (template : Path) (text : String) :
    (store.insert template text tree).2 = tree ∨
      ∃ later, tree.replaceFile (store.entry template) (.ofText text) = .ok later ∧
        (store.insert template text tree).2 = later := by
  obtain ⟨place, hdir, hfronts⟩ := h.descend
  obtain ⟨front, hparts, hfront⟩ := hfronts template
  have hdirOf := FileTree.hasDir_dirOf (h.1 template) hparts (isEmptyPart_entryName template) hfront hdir
  unfold insert
  dsimp only
  rw [h.ensureDir]
  dsimp only
  unfold FileTree.writeFile
  rw [FileTree.ensureDir_of_hasDir hdirOf]
  dsimp only
  cases hreplace : tree.replaceFile (store.entry template) (.ofText text) with
  | error error => exact .inl rfl
  | ok later => exact .inr ⟨later, rfl, rfl⟩

/-- The directory stays where it is. -/
theorem IsThere.ofChanged {places : Location → Prop} {later : FileTree} (h : store.IsThere tree)
    (hc : Changed places tree later) : store.IsThere later := by
  obtain ⟨hcheck, place, hd, hdir⟩ := h
  refine ⟨hcheck, place, ?_, hc.isDirAt hdir⟩
  rw [hc.origin]
  exact hc.descend hd

/-! ## 3. Storing for one template, looking up another -/

variable {p q : Path}

/-- Entries with other names stand at other places. -/
theorem placeFrom_entry_ne (hname : entryName q ≠ entryName p) (cwd : Location) :
    (store.entry p).placeFrom cwd ≠ (store.entry q).placeFrom cwd := by
  rw [placeFrom_entry, placeFrom_entry]
  exact fun e => hname (List.singleton_injective (List.append_cancel_left e)).symm

/-- **What is stored under another name is no matter** of what is looked up, unless the entry is the template
    itself. -/
theorem lookup_insert_of_ne (h : store.IsThere tree) (hname : entryName q ≠ entryName p)
    (hsource : p.placeFrom tree.cwd ≠ (store.entry q).placeFrom tree.cwd) (text : String) (journal : Journal) :
    store.lookup p (store.insert q text tree).2 journal = store.lookup p tree journal := by
  rcases insert_of_isThere h q text with hsame | ⟨later, hreplace, hlater⟩
  · rw [hsame]
  obtain ⟨hplace, hfree, hinserted⟩ := FileTree.replaceFile_inserts hreplace
  rw [hlater, hinserted]
  have hstat := FileTree.stat_insertAt hplace hfree (.ofText text) tree.now hsource
  obtain ⟨there, hdir, hfronts⟩ := h.descend
  obtain ⟨front, hparts, hfront⟩ := hfronts p
  have hentry := FileTree.stat_insertAt_of_dir hplace hfree (.ofText text) tree.now hparts hfront hdir
    (isNamePart_entryName p) (placeFrom_entry_ne hname tree.cwd)
  unfold lookup FileTree.readText
  dsimp only
  rw [hentry]
  cases hbefore : tree.stat p with
  | ok source => rw [(hstat source).mpr hbefore]
  | error error =>
    -- whatever the error is, the module is not looked for
    cases hafter : FileTree.stat (tree.insertAt _ (.file (.ofText text) tree.now)) p with
    | error other => rfl
    | ok source =>
      rw [(hstat source).mp hafter] at hbefore
      cases hbefore

/-- **Templates with one storage form share an entry.** -/
theorem insert_of_storageForm (h : q.storageForm = p.storageForm) :
    store.entry q = store.entry p ∧ ∀ text tree, store.insert q text tree = store.insert p text tree := by
  have hentry : store.entry q = store.entry p := by
    unfold entry
    rw [h]
  refine ⟨hentry, fun text tree => ?_⟩
  unfold insert
  rw [hentry]

/-! ## 4. One store after the other -/

/-- Where no failure is told, the entry is written. -/
theorem wrote_of_insert {template entry : Path} {text : String}
    (h : (store.insert template text tree).1 = .ok entry) :
    ∃ place, Wrote (store.entry template) (.ofText text) tree place (store.insert template text tree).2 := by
  have hwritten := store.insert_spec template text tree
  generalize store.insert template text tree = inserted at h hwritten
  cases hwritten with
  | wrote hwrote => exact ⟨_, hwrote⟩
  | failed _ => cases h

/-- The files that stores lead to, with what was stored, the latest first. Between them files are written
    outside of the store, and time passes. To look up changes no file. -/
inductive StoreHistory (store : ModuleStore) (templates : Path → Prop) (start : FileTree) :
    List (Path × String) → FileTree → Prop where
  /-- Nothing is stored yet. -/
  | start : StoreHistory store templates start [] start
  /-- A module is stored for a template. -/
  | stored {done : List (Path × String)} {tree later : FileTree} {template entry : Path} {text : String}
    (before : StoreHistory store templates start done tree) (among : templates template)
    (h : store.insert template text tree = (.ok entry, later)) :
    StoreHistory store templates start ((template, text) :: done) later
  /-- A module cannot be stored. -/
  | refused {done : List (Path × String)} {tree later : FileTree} {template : Path} {text : String}
    {error : LoadError} (before : StoreHistory store templates start done tree)
    (h : store.insert template text tree = (.error error, later)) :
    StoreHistory store templates start done later
  /-- A file is written outside of the store. -/
  | written {done : List (Path × String)} {tree later : FileTree} {path : Path} {content : Content}
    (before : StoreHistory store templates start done tree)
    (outside : ¬ store.dir.placeFrom tree.cwd <+: path.placeFrom tree.cwd)
    (h : tree.replaceFile path content = .ok later) : StoreHistory store templates start done later
  /-- Time passes. -/
  | waited {done : List (Path × String)} {tree : FileTree}
    (before : StoreHistory store templates start done tree) (now : Int) :
    StoreHistory store templates start done { tree with now }

/-- The last module that was stored for a template with the storage form of this one. -/
def lastStored? (template : Path) (done : List (Path × String)) : Option String :=
  (done.find? fun stored => stored.1.storageForm = template.storageForm).map (·.2)

/-- What the entry of a template may hold: the last module that was stored for it, or if there is none, what
    stood there in the beginning. -/
def HeldFor (store : ModuleStore) (start : FileTree) (template : Path) (done : List (Path × String))
    (content : Content) (modified : Int) : Prop :=
  (∃ text, lastStored? template done = some text ∧ content = .ofText text) ∨
    lastStored? template done = none ∧
      start.entryAt? ((store.entry template).placeFrom start.cwd) = some (.file content modified)

/-- What stores one after the other keep: the directory is there once anything was stored, and the entries
    hold what was stored last. -/
structure Keeps (store : ModuleStore) (templates : Path → Prop) (start : FileTree)
    (done : List (Path × String)) (tree : FileTree) : Prop where
  cwd : tree.cwd = start.cwd
  isThere : done ≠ [] → store.IsThere tree
  held : ∀ template, templates template → ∀ content modified,
    tree.entryAt? ((store.entry template).placeFrom start.cwd) = some (.file content modified) →
    HeldFor store start template done content modified

section Step

variable {templates : Path → Prop} {start later : FileTree} {done : List (Path × String)}
  {places : Location → Prop}

/-- What is written elsewhere is no matter. -/
theorem Keeps.ofChanged (h : Keeps store templates start done tree) (hc : Changed places tree later)
    (hp : ∀ template, ¬ places ((store.entry template).placeFrom tree.cwd)) :
    Keeps store templates start done later where
  cwd := hc.cwd.trans h.cwd
  isThere hne := (h.isThere hne).ofChanged hc
  held template among content modified hentry :=
    h.held template among content modified (hc.old _ content modified (h.cwd ▸ hp template) hentry)

/-- Neither is the time. -/
theorem Keeps.ofWait (h : Keeps store templates start done tree) (now : Int) :
    Keeps store templates start done { tree with now } where
  cwd := h.cwd
  isThere hne := by
    obtain ⟨hcheck, place, hd, hdir⟩ := h.isThere hne
    exact ⟨hcheck, place, (tree.descend_now now _ _).trans hd, hdir⟩
  held := h.held

/-- **A module that is stored is held from then on**, for all templates with the storage form of its own, and
    no entry of another one is touched. -/
theorem Keeps.ofStored {template : Path} {text : String} {place : Location}
    (hdigests : ∀ p q, templates p → templates q →
      Sha256.hexDigest p.storageForm = Sha256.hexDigest q.storageForm → p.storageForm = q.storageForm)
    (among : templates template) (h : Keeps store templates start done tree)
    (hw : Wrote (store.entry template) (.ofText text) tree place later) :
    Keeps store templates start ((template, text) :: done) later where
  cwd := hw.changed.cwd.trans h.cwd
  isThere _ := isThere_of_locate hw.locate
  held other hother content modified hentry := by
    have hplace : place = (store.entry template).placeFrom start.cwd := by
      rw [hw.place_eq, h.cwd]
    by_cases hform : template.storageForm = other.storageForm
    · refine .inl ⟨text, ?_, ?_⟩
      · rw [lastStored?, List.find?_cons_of_pos (by simpa using hform), Option.map_some]
      · rw [← (insert_of_storageForm hform).1, ← hplace, hw.entry] at hentry
        cases hentry
        rfl
    · have hname : entryName template ≠ entryName other := fun e =>
        hform (hdigests _ _ among hother (digest_of_entryName e))
      have hbefore := hw.changed.old _ content modified
        (fun e => placeFrom_entry_ne hname start.cwd (e.trans hplace)) hentry
      have hlast : lastStored? other ((template, text) :: done) = lastStored? other done := by
        rw [lastStored?, List.find?_cons_of_neg (by simpa using hform), lastStored?]
      unfold HeldFor
      rw [hlast]
      exact h.held other hother content modified hbefore

/-- **What any number of stores keep.** -/
theorem StoreHistory.keeps
    (hdigests : ∀ p q, templates p → templates q →
      Sha256.hexDigest p.storageForm = Sha256.hexDigest q.storageForm → p.storageForm = q.storageForm)
    (h : StoreHistory store templates start done tree) : Keeps store templates start done tree := by
  induction h with
  | start => exact ⟨rfl, fun hne => absurd rfl hne, fun _ _ _ _ hentry => .inr ⟨rfl, hentry⟩⟩
  | @stored done tree later template entry text _ among hinsert ih =>
    obtain ⟨place, hwrote⟩ := wrote_of_insert (congrArg Prod.fst hinsert)
    rw [hinsert] at hwrote
    exact ih.ofStored hdigests among hwrote
  | @refused done tree later template text error _ hinsert ih =>
    have hwritten := store.insert_spec template text tree
    rw [hinsert] at hwritten
    cases hwritten with
    | failed hkept => exact ih.ofChanged hkept fun _ => id
  | written _ outside hreplace ih =>
    obtain ⟨place, hwrote⟩ := FileTree.replaceFile_wrote hreplace
    refine ih.ofChanged hwrote.changed fun template hplace => outside ?_
    rw [← hwrote.place_eq, ← hplace]
    exact store.entry_below template _
  | waited _ now ih => exact ih.ofWait now

end Step

variable {templates : Path → Prop} {start : FileTree} {done : List (Path × String)}

/-- **Templates with different storage forms are kept apart**, after any number of stores, if the digests of
    different storage forms differ.

    A template is served the last module that was stored for its storage form, or if there is none, what stood
    in its entry in the beginning. What is stored for a template with another storage form is no matter of what
    is looked up, once the directory of the store is there, unless the entry of the other one is looked up as
    a template itself. Before, the directory is made, and its own path may lead elsewhere then.

    Templates with one storage form share one entry. The paths that are their own storage forms are those
    without backslashes, and every other path shares the entry of one of these. -/
theorem stored_apart
    (hdigests : ∀ p q, templates p → templates q →
      Sha256.hexDigest p.storageForm = Sha256.hexDigest q.storageForm → p.storageForm = q.storageForm)
    (h : StoreHistory store templates start done tree) (hp : templates p) :
    (∀ journal text, (store.lookup p tree journal).1 = .ok (some text) → store.IsThere tree ∧
      (lastStored? p done = some text ∨ lastStored? p done = none ∧ ∃ content modified,
        start.entryAt? ((store.entry p).placeFrom start.cwd) = some (.file content modified) ∧
        content.text? = some text)) ∧
    (done ≠ [] → store.IsThere tree) ∧
    (store.IsThere tree → ∀ q, templates q → q.storageForm ≠ p.storageForm →
      p.placeFrom tree.cwd ≠ (store.entry q).placeFrom tree.cwd → ∀ text journal,
      store.lookup p (store.insert q text tree).2 journal = store.lookup p tree journal) ∧
    (∀ q, q.storageForm = p.storageForm →
      store.entry q = store.entry p ∧ ∀ text tree, store.insert q text tree = store.insert p text tree) ∧
    (p.storageForm = p.text ↔ '\\' ∉ p.text.toList) ∧
    ('\\' ∈ p.text.toList →
      ∃ q : Path, '\\' ∉ q.text.toList ∧ q ≠ p ∧ q.storageForm = p.storageForm) := by
  have hkeeps := h.keeps hdigests
  refine ⟨fun journal text hhit => ?_, hkeeps.isThere, fun hthere q hq hform hsource text journal => ?_,
    fun q hform => insert_of_storageForm hform, Path.storageForm_eq_iff, Path.exists_same_storageForm⟩
  · obtain ⟨place, content, modified, hplace, hentry, htext⟩ :=
      FileTree.readText_eq_ok.mp (lookup_spec store hhit).1
    refine ⟨isThere_of_locate hplace, ?_⟩
    rw [FileTree.place_of_locate hplace, hkeeps.cwd] at hentry
    rcases hkeeps.held p hp content modified hentry with ⟨last, hlast, rfl⟩ | ⟨hnone, hstart⟩
    · rw [FileTree.text?_ofText] at htext
      exact .inl (hlast.trans htext)
    · exact .inr ⟨hnone, content, modified, hstart, htext⟩
  · refine lookup_insert_of_ne hthere (fun hname => hform ?_) hsource text journal
    exact hdigests q p hq hp (digest_of_entryName hname)

end ModuleStore

open ModuleStore (StoreHistory)

/-- Two templates with digests of their own. -/
theorem digests_tu (p q : Path) (hp : p ∈ [⟨"t.hbs"⟩, ⟨"u.hbs"⟩]) (hq : q ∈ [⟨"t.hbs"⟩, ⟨"u.hbs"⟩])
    (h : Sha256.hexDigest p.storageForm = Sha256.hexDigest q.storageForm) : p.storageForm = q.storageForm := by
  have hne : Sha256.hexDigest (Path.storageForm ⟨"t.hbs"⟩) ≠ Sha256.hexDigest (Path.storageForm ⟨"u.hbs"⟩) := by
    decide +kernel
  rw [List.mem_pair] at hp hq
  rcases hp with rfl | rfl <;> rcases hq with rfl | rfl
  · rfl
  · exact absurd h hne
  · exact absurd h.symm hne
  · rfl

/-- A module that was stored for one of them is served, whatever is stored for the other one. -/
theorem stored_apart_tu : ∃ later,
    StoreHistory ⟨⟨"c"⟩⟩ (· ∈ [⟨"t.hbs"⟩, ⟨"u.hbs"⟩]) oneHelper [(⟨"t.hbs"⟩, "m")] later ∧
    (∀ journal, ModuleStore.lookup ⟨⟨"c"⟩⟩ ⟨"t.hbs"⟩ later journal = (.ok (some "m"), journal)) ∧
    ∀ text journal,
      ModuleStore.lookup ⟨⟨"c"⟩⟩ ⟨"t.hbs"⟩ (ModuleStore.insert ⟨⟨"c"⟩⟩ ⟨"u.hbs"⟩ text later).2 journal =
        ModuleStore.lookup ⟨⟨"c"⟩⟩ ⟨"t.hbs"⟩ later journal := by
  obtain ⟨later, hstore⟩ := stores_storing "m"
  rw [storeModule_eq (rfl : storing.cacheDir = some ⟨"c"⟩)] at hstore
  obtain ⟨entry, hinsert, _⟩ := map_eq_ok.mp (congrArg Prod.fst hstore)
  obtain ⟨place, hwrote⟩ := ModuleStore.wrote_of_insert hinsert
  obtain rfl := congrArg Prod.snd hstore
  have hhistory : StoreHistory ⟨⟨"c"⟩⟩ (· ∈ [⟨"t.hbs"⟩, ⟨"u.hbs"⟩]) oneHelper [(⟨"t.hbs"⟩, "m")] _ :=
    .stored .start (List.mem_cons_self ..) (Prod.ext hinsert rfl)
  obtain ⟨hthere, hentry, hname⟩ := template_oneHelper
  obtain ⟨_, hdir, hother, _⟩ := ModuleStore.stored_apart (p := ⟨"t.hbs"⟩) digests_tu hhistory
    (List.mem_cons_self ..)
  refine ⟨_, hhistory, fun journal =>
    ModuleStore.lookup_of_wrote _ hwrote hthere hentry hname (by decide) journal, ?_⟩
  refine hother (hdir (List.cons_ne_nil _ _)) ⟨"u.hbs"⟩ (by simp) (by decide) ?_
  rw [ModuleStore.placeFrom_entry, hwrote.changed.cwd]
  intro hplace
  have hlength := congrArg List.length hplace
  revert hlength
  decide

/-- Two templates, one of them with a backslash in its name, and an empty store. -/
def slashes : FileTree :=
  let named := ({} : FileTree).insertAt ["a\\b.hbs"] (.file (.ofText "y") 0)
  let nested := (named.insertAt ["a"] (.dir 0)).insertAt ["a", "b.hbs"] (.file (.ofText "x") 0)
  { nested.insertAt ["c"] (.dir 0) with now := 1 }

/-- **A template that is served the module of another one.** They are different files. Nothing is stored for
    the template with a backslash in its name; once a module is stored for the other one, it is served for
    both. -/
theorem backslash_served : ∃ later,
    (slashes.readText ⟨"a/b.hbs"⟩).toOption = some "x" ∧ (slashes.readText ⟨"a\\b.hbs"⟩).toOption = some "y" ∧
    (∀ p ∈ [⟨"a/b.hbs"⟩, ⟨"a\\b.hbs"⟩], ∀ q ∈ [⟨"a/b.hbs"⟩, ⟨"a\\b.hbs"⟩],
      Sha256.hexDigest (Path.storageForm p) = Sha256.hexDigest (Path.storageForm q) →
      Path.storageForm p = Path.storageForm q) ∧
    StoreHistory ⟨⟨"c"⟩⟩ (· ∈ [⟨"a/b.hbs"⟩, ⟨"a\\b.hbs"⟩]) slashes [(⟨"a/b.hbs"⟩, "m")] later ∧
    (ModuleStore.lookup ⟨⟨"c"⟩⟩ ⟨"a\\b.hbs"⟩ slashes []).1.toOption = some none ∧
    ModuleStore.lookup ⟨⟨"c"⟩⟩ ⟨"a\\b.hbs"⟩ later [] = (.ok (some "m"), []) := by
  have hform : Path.storageForm ⟨"a/b.hbs"⟩ = Path.storageForm ⟨"a\\b.hbs"⟩ := by decide
  have hentry : ModuleStore.entry ⟨⟨"c"⟩⟩ ⟨"a/b.hbs"⟩ = ModuleStore.entry ⟨⟨"c"⟩⟩ ⟨"a\\b.hbs"⟩ :=
    (ModuleStore.insert_of_storageForm hform).1
  have hplace : slashes.locate ⟨"a\\b.hbs"⟩ = .ok ["a\\b.hbs"] := rfl
  have hfile : slashes.entryAt? ["a\\b.hbs"] = some (.file (.ofText "y") 0) := by
    show FileTree.entryAt? (FileTree.insertAt _ _ _) _ = _
    rw [FileTree.entryAt?_insertAt (by decide), if_neg (by decide), FileTree.entryAt?_insertAt (by decide),
      if_neg (by decide), FileTree.entryAt?_insertAt (by decide), if_neg (by decide),
      FileTree.entryAt?_insertAt (by decide), if_pos rfl]
  have hinsert : (ModuleStore.insert ⟨⟨"c"⟩⟩ ⟨"a/b.hbs"⟩ "m" slashes).1 =
      .ok (ModuleStore.entry ⟨⟨"c"⟩⟩ ⟨"a/b.hbs"⟩) := eq_ok_of_toOption (by decide +kernel)
  obtain ⟨place, hwrote⟩ := ModuleStore.wrote_of_insert hinsert
  refine ⟨_, by decide +kernel, by decide +kernel, ?_,
    .stored .start (List.mem_cons_self ..) (Prod.ext hinsert rfl), by decide +kernel, ?_⟩
  · intro p hp q hq _
    rw [List.mem_pair] at hp hq
    rcases hp with rfl | rfl <;> rcases hq with rfl | rfl
    · rfl
    · exact hform
    · exact hform.symm
    · rfl
  · rw [hentry] at hwrote
    exact ModuleStore.lookup_of_wrote _ hwrote hplace hfile
      (fun h => ModuleStore.ne_entryName _ (by decide) (Option.some.inj h)) (by decide) []

end Stache
