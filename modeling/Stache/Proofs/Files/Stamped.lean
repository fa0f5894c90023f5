import Stache.Proofs.Files.Places

/-!
# Files that are stamped

Whoever writes a file stamps it with the time, and time does not run backwards. So a file that is there
later was there before, with the same stamp, or it carries the later time.

* `FileTree.Stamped` -- the later tree has other files at some places at most, stamped with its time;
* `FileTree.Spared` -- what stood elsewhere stands there still, and paths lead to it;
* `Wrote.stamped`, `removeFile_stamped`, `Stamped.wait` and so on -- the ways to change files, and none at all.
-/

namespace Stache.FileTree

variable {places : Location → Prop} {tree later : FileTree}

/-! ## 1. What is written -/

/-- A file of the later tree was there before, or it stands at one of the places and carries the later
    time. -/
structure Stamped (places : Location → Prop) (tree later : FileTree) : Prop where
  cwd : later.cwd = tree.cwd
  now : tree.now ≤ later.now
  old : ∀ place content modified, later.entryAt? place = some (.file content modified) →
    tree.entryAt? place = some (.file content modified) ∨ places place ∧ modified = later.now

namespace Stamped

theorem refl (tree : FileTree) : Stamped places tree tree :=
  ⟨rfl, Int.le_refl _, fun _ _ _ h => .inl h⟩

theorem mono {others : Location → Prop} (h : Stamped places tree later)
    (hp : ∀ place, places place → others place) : Stamped others tree later :=
  ⟨h.cwd, h.now, fun place content modified he =>
    (h.old place content modified he).imp id fun hplace => ⟨hp place hplace.1, hplace.2⟩⟩

/-- Time passes. -/
theorem wait {now : Int} (h : tree.now ≤ now) : Stamped places tree { tree with now } :=
  ⟨rfl, h, fun _ _ _ he => .inl he⟩

end Stamped

/-- What changes no file is no matter. -/
theorem Changed.stamped (h : Changed nowhere tree later) : Stamped places tree later :=
  ⟨h.cwd, Int.le_of_eq h.now.symm, fun place content modified he =>
    .inl (h.old place content modified id he)⟩

/-- A file that was written carries the time. -/
theorem Wrote.stamped {p : Path} {content : Content} {place : Location}
    (h : Wrote p content tree place later) : Stamped (· = place) tree later where
  cwd := h.changed.cwd
  now := Int.le_of_eq h.changed.now.symm
  old there other modified he := by
    by_cases hthere : there = place
    · subst hthere
      rw [h.entry] at he
      cases he
      exact .inr ⟨rfl, h.changed.now.symm⟩
    · exact .inl (h.changed.old there other modified hthere he)

/-! ## 2. What stays -/

/-- Whatever stood at other places than these stands there still, and directories stay everywhere. -/
structure Spared (places : Location → Prop) (tree later : FileTree) : Prop where
  cwd : later.cwd = tree.cwd
  same : ∀ place entry, ¬ places place → tree.entryAt? place = some entry →
    later.entryAt? place = some entry
  dirs : ∀ place, tree.isDirAt place = true → later.isDirAt place = true

namespace Spared

theorem refl (tree : FileTree) : Spared places tree tree := ⟨rfl, fun _ _ _ h => h, fun _ h => h⟩

theorem mono {others : Location → Prop} (h : Spared places tree later)
    (hp : ∀ place, places place → others place) : Spared others tree later :=
  ⟨h.cwd, fun place entry hn => h.same place entry fun hplace => hn (hp place hplace), h.dirs⟩

/-- The time is no matter. -/
theorem wait (tree : FileTree) (now : Int) : Spared places tree { tree with now } :=
  ⟨rfl, fun _ _ _ h => h, fun _ h => h⟩

theorem descend (h : Spared places tree later) {start there : Location} {parts : List (List Char)}
    (hd : tree.descend start parts = .ok there) (hthere : (later.entryAt? there).isSome = true) :
    later.descend start parts = .ok there := by
  induction parts generalizing start with
  | nil => exact hd
  | cons part parts ih =>
    obtain ⟨next, hnext, hrest⟩ := descend_cons_eq_ok.mp hd
    refine descend_cons_eq_ok.mpr ⟨next, enter_of_kept (h.dirs start) (fun _ => ?_) hnext, ih hrest⟩
    -- only the last part may lead to a file
    cases parts with
    | nil =>
      cases hrest
      exact hthere
    | cons second parts =>
      obtain ⟨_, hsecond, _⟩ := descend_cons_eq_ok.mp hrest
      obtain ⟨modified, hdir⟩ := isDirAt_iff.mp (h.dirs next (isDirAt_of_enter hsecond))
      rw [hdir]
      rfl

/-- **A path leads to what it led to**, unless this stood at one of the places. -/
theorem stat (h : Spared places tree later) {p : Path} {entry : Entry} (hs : tree.stat p = .ok entry)
    (hp : ¬ places (p.placeFrom tree.cwd)) : later.stat p = .ok entry := by
  obtain ⟨place, hplace, hentry⟩ := stat_eq_ok.mp hs
  rw [← place_of_locate hplace] at hp
  have hsame := h.same place entry hp hentry
  obtain ⟨hcheck, hd⟩ := locate_eq_ok.mp hplace
  have horigin : later.origin p = tree.origin p := by
    unfold origin
    rw [h.cwd]
  refine stat_eq_ok.mpr ⟨place, locate_eq_ok.mpr ⟨hcheck, ?_⟩, hsame⟩
  rw [horigin]
  exact h.descend hd (by rw [hsame]; rfl)

end Spared

theorem Changed.spared (h : Changed places tree later) : Spared places tree later :=
  ⟨h.cwd, h.same, fun _ => h.isDirAt⟩

/-! ## 3. Files that are removed -/

/-- A file that is removed stood where its path leads. -/
theorem removeFile_erases {p : Path} (h : tree.removeFile p = .ok later) :
    ∃ place, tree.locate p = .ok place ∧ tree.isDirAt place = false ∧
      later = { tree with entries := tree.entries.erase place } := by
  unfold removeFile at h
  cases hplace : tree.locate p with
  | error error =>
    rw [hplace] at h
    cases h
  | ok place =>
    rw [hplace] at h
    simp only [bind, Except.bind] at h
    split at h
    · cases h
    · rename_i hdir
      exact ⟨place, rfl, Bool.eq_false_iff.mpr hdir, (Except.ok.inj h).symm⟩

theorem entryAt?_erase (tree : FileTree) {place other : Location} (h : other ≠ []) :
    ({ tree with entries := tree.entries.erase place } : FileTree).entryAt? other =
      if place = other then none else tree.entryAt? other := by
  unfold entryAt?
  dsimp only
  rw [if_neg h, if_neg h, Std.ExtTreeMap.getElem?_erase]
  simp only [Std.LawfulEqCmp.compare_eq_iff_eq]

/-- All files that are left were there. -/
theorem removeFile_stamped {p : Path} (h : tree.removeFile p = .ok later) : Stamped places tree later := by
  obtain ⟨place, _, _, rfl⟩ := removeFile_erases h
  refine ⟨rfl, Int.le_refl _, fun there content modified he => .inl ?_⟩
  by_cases hthere : there = []
  · subst hthere
    exact he
  · rw [entryAt?_erase tree hthere] at he
    split at he
    · cases he
    · exact he

/-- Nothing else is taken away. -/
theorem removeFile_spared {p : Path} (h : tree.removeFile p = .ok later) :
    Spared (· = p.placeFrom tree.cwd) tree later := by
  obtain ⟨place, hplace, hdir, rfl⟩ := removeFile_erases h
  rw [← place_of_locate hplace]
  have hsame {there : Location} {entry : Entry} (hn : there ≠ place)
      (he : tree.entryAt? there = some entry) :
      ({ tree with entries := tree.entries.erase place } : FileTree).entryAt? there = some entry := by
    by_cases hthere : there = []
    · subst hthere
      exact he
    · rwa [entryAt?_erase tree hthere, if_neg fun e => hn e.symm]
  refine ⟨rfl, fun there entry hn he => hsame hn he, fun there hd => ?_⟩
  obtain ⟨modified, he⟩ := isDirAt_iff.mp hd
  refine isDirAt_iff.mpr ⟨modified, hsame ?_ he⟩
  rintro rfl
  rw [hdir] at hd
  cases hd

end Stache.FileTree
