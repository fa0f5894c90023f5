import Stache.Job.ModuleStore
import Stache.Proofs.Files.Places
import Stache.Proofs.Text.Marks

/-!
# Entries of a store

The entry of a template is a file in the directory of the store, with a name of its own for every digest. To
store a module writes this file and no other, and what is looked up is what this file holds.

* `mem_hexDigest`, `length_hexDigest` -- digests are sixty-four hexadecimal digits;
* `placeFrom_entry` -- an entry is spelled under its name; `entry_below`, `entries_below` -- in the directory;
* `insert_spec` -- **to store a module writes its entry**, or no file at all;
* `lookup_spec` -- what is looked up stands in the entry;
* `lookup_of_newer`, `lookup_of_wrote` -- what is newer than its template is served, so what was stored is.
-/

namespace Stache

namespace Sha256

/-! ## 1. Digests -/

theorem digitChar_mem : ∀ n < 16, Nat.digitChar n ∈ "0123456789abcdef".toList := by decide

/-- Digests are written with hexadecimal digits. -/
theorem mem_hexDigest {text : String} {c : Char} (h : c ∈ (hexDigest text).toList) :
    c ∈ "0123456789abcdef".toList := by
  rw [hexDigest, String.toList_ofList, List.mem_flatMap] at h
  obtain ⟨byte, _, hc⟩ := h
  have hbyte : byte.toNat < 256 := byte.toNat_lt
  rw [hexByte, List.mem_cons, List.mem_singleton] at hc
  rcases hc with rfl | rfl
  · exact digitChar_mem _ (by omega)
  · exact digitChar_mem _ (by omega)

theorem length_bytesOf (count n : Nat) : (bytesOf count n).length = count := by
  show ((List.range count).reverse.map _).length = count
  rw [List.length_map, List.length_reverse, List.length_range]

theorem length_digest (bytes : List UInt8) : (digest bytes).length = 32 := by
  simp [digest, State.words, length_bytesOf]

/-- There are sixty-four of them. -/
theorem length_hexDigest (text : String) : (hexDigest text).toList.length = 64 := by
  have hdigits (bytes : List UInt8) : (bytes.flatMap hexByte).length = 2 * bytes.length := by
    induction bytes with
    | nil => rfl
    | cons byte bytes ih =>
      rw [List.flatMap_cons, List.length_append, ih, List.length_cons]
      show 2 + _ = _
      omega
  rw [hexDigest, String.toList_ofList, hdigits, length_digest]

end Sha256

/-! ## 2. Names -/

/-- Without backslashes a path is its own name. -/
theorem Path.storageForm_eq {p : Path} (h : '\\' ∉ p.text.toList) : p.storageForm = p.text := by
  have hmark {mark : List Char} (hm : '\\' ∈ mark) : Text.afterMark? mark p.text.toList = none := by
    cases hrest : Text.afterMark? mark p.text.toList with
    | none => rfl
    | some rest =>
      rw [Text.append_of_afterMark? hrest] at h
      exact absurd (List.mem_append_left rest hm) h
  have hsame : p.text.toList.map (fun c => if c = '\\' then '/' else c) = p.text.toList := by
    refine (List.map_congr_left fun c hc => if_neg ?_).trans (List.map_id _)
    rintro rfl
    exact h hc
  unfold storageForm
  dsimp only
  rw [hmark (by decide), hmark (by decide)]
  show String.ofList (p.text.toList.map _) = _
  rw [hsame, String.ofList_toList]

namespace ModuleStore

variable (store : ModuleStore) (template : Path)

/-- The name of the entry of a template. -/
def entryName : String :=
  Sha256.hexDigest template.storageForm ++ entryEnding

/-- It has no separator. -/
theorem not_mem_entryName : '/' ∉ (entryName template).toList := by
  intro h
  rw [entryName, String.toList_append] at h
  rcases List.mem_append.mp h with h | h
  · exact absurd (Sha256.mem_hexDigest h) (by decide)
  · exact absurd h (by decide)

theorem length_entryName : (entryName template).toList.length = 77 := by
  rw [entryName, String.toList_append, List.length_append, Sha256.length_hexDigest]
  rfl

/-- A shorter text is no name of an entry. -/
theorem ne_entryName {name : String} (h : name.toList.length < 77) : name ≠ entryName template := by
  rintro rfl
  rw [length_entryName] at h
  omega

theorem isNamePart_entryName : FileTree.isNamePart (entryName template).toList = true :=
  Path.isNamePart_of_length (by rw [length_entryName]; decide)

/-- **An entry is spelled under its name** in the directory of the store. -/
theorem placeFrom_entry (cwd : Location) :
    (store.entry template).placeFrom cwd = store.dir.placeFrom cwd ++ [entryName template] :=
  store.dir.placeFrom_join (not_mem_entryName template) (isNamePart_entryName template) cwd

/-- So it stands below the directory. -/
theorem entry_below (cwd : Location) : store.dir.placeFrom cwd <+: (store.entry template).placeFrom cwd := by
  rw [store.placeFrom_entry]
  exact List.prefix_append _ _

/-- Whatever is an entry stands there, if the names in the directory have no separator. -/
theorem entries_below {tree : FileTree}
    (hnames : ∀ names, tree.list store.dir = .ok names → ∀ name ∈ names, '/' ∉ name.toList) {path : Path}
    (h : path ∈ store.entries tree) (cwd : Location) : store.dir.placeFrom cwd <+: path.placeFrom cwd := by
  unfold entries at h
  cases hlist : tree.list store.dir with
  | error =>
    rw [hlist] at h
    cases h
  | ok names =>
    rw [hlist] at h
    obtain ⟨name, hname, rfl⟩ := List.mem_map.mp (List.mem_of_mem_filter h)
    obtain ⟨hmem, hends⟩ := List.mem_filter.mp hname
    obtain ⟨before, hbefore⟩ := Option.isSome_iff_exists.mp hends
    have htext := Text.beforeMark?_eq_some.mp hbefore
    have hpart : FileTree.isNamePart name.toList = true := by
      refine Path.isNamePart_of_length ?_
      rw [htext, List.length_append]
      exact Nat.lt_add_left _ (by decide)
    rw [store.dir.placeFrom_join (hnames names hlist name hmem) hpart]
    exact List.prefix_append _ _

variable {template} in
/-- Names of entries differ as the digests do. -/
theorem digest_of_entryName {other : Path} (h : entryName template = entryName other) :
    Sha256.hexDigest template.storageForm = Sha256.hexDigest other.storageForm := by
  unfold entryName at h
  generalize Sha256.hexDigest template.storageForm = digest at h ⊢
  generalize Sha256.hexDigest other.storageForm = digest' at h ⊢
  have hlist := congrArg String.toList h
  rw [String.toList_append, String.toList_append] at hlist
  exact String.toList_inj.mp (List.append_cancel_right hlist)

/-- An entry is known by its name. -/
theorem entry_eq_of_name {other : Path} (h : entryName other = entryName template) :
    store.entry other = store.entry template :=
  congrArg (fun name => store.dir.join ⟨name⟩) h

/-- Where an entry stands, it stands under its name. -/
theorem name_of_locate {tree : FileTree} {place : Location}
    (h : tree.locate (store.entry template) = .ok place) :
    place.getLast? = some (entryName template) := by
  rw [FileTree.place_of_locate h, store.placeFrom_entry template, List.getLast?_concat]

/-! ## 3. Storing and looking up -/

/-- **To store a module writes its entry**, or no file at all. -/
theorem insert_spec (text : String) (tree : FileTree) :
    FileTree.Written (store.entry template) (.ofText text) tree (store.insert template text tree) := by
  have hmade : FileTree.Changed FileTree.nowhere tree (tree.ensureDir store.dir).2 :=
    FileTree.ensureDir_changed _
  unfold insert
  dsimp only
  generalize tree.ensureDir store.dir = result at hmade ⊢
  obtain ⟨error | ⟨⟩, made⟩ := result
  · exact .failed hmade
  dsimp only
  have hwrite := made.writeFile_spec (store.entry template) text
  generalize made.writeFile (store.entry template) text = result at hwrite ⊢
  cases hwrite with
  | wrote hwrote => exact .wrote (hwrote.after hmade)
  | failed hkept => exact .failed (hmade.trans hkept)

variable {template} in
/-- **What is looked up stands in the entry**, which is newer than the template. -/
theorem lookup_spec {tree : FileTree} {journal : Journal} {text : String}
    (h : (store.lookup template tree journal).1 = .ok (some text)) :
    tree.readText (store.entry template) = .ok text ∧
      ∃ source held, tree.stat template = .ok source ∧ tree.stat (store.entry template) = .ok held ∧
        source.modified < held.modified := by
  unfold lookup at h
  dsimp only at h
  cases hsource : tree.stat template with
  | error error =>
    rw [hsource] at h
    cases h
  | ok source =>
    cases hheld : tree.stat (store.entry template) with
    | error error =>
      rw [hsource, hheld] at h
      cases error <;> cases h
    | ok held =>
      rw [hsource, hheld] at h
      dsimp only at h
      split at h
      · cases h
      · rename_i hnewer
        cases htext : tree.readText (store.entry template) with
        | error error =>
          rw [htext] at h
          cases h
        | ok other =>
          rw [htext] at h
          cases h
          exact ⟨rfl, source, held, rfl, rfl, Int.lt_of_not_ge hnewer⟩

variable {template} in
/-- **What stands in an entry that is newer than the template is looked up.** -/
theorem lookup_of_newer {tree : FileTree} {text : String} {source held : Entry}
    (hread : tree.readText (store.entry template) = .ok text) (hsource : tree.stat template = .ok source)
    (hheld : tree.stat (store.entry template) = .ok held) (hnewer : source.modified < held.modified)
    (journal : Journal) : store.lookup template tree journal = (.ok (some text), journal) := by
  unfold lookup
  dsimp only
  rw [hsource, hheld]
  dsimp only
  rw [if_neg (Int.not_le.mpr hnewer), hread]

variable {template} in
/-- **A module that was stored is served** if its template is older. -/
theorem lookup_of_wrote {tree later : FileTree} {place there : Location} {text : String} {source : Entry}
    (hw : FileTree.Wrote (store.entry template) (.ofText text) tree place later)
    (hthere : tree.locate template = .ok there) (hsource : tree.entryAt? there = some source)
    (hname : there.getLast? ≠ some (entryName template)) (hold : source.modified < tree.now)
    (journal : Journal) : store.lookup template later journal = (.ok (some text), journal) := by
  have hother : there ≠ place := by
    rintro rfl
    exact hname (store.name_of_locate template hw.locate)
  have hstat : later.stat template = .ok source :=
    FileTree.stat_eq_ok.mpr ⟨there, hw.changed.locate hthere, hw.changed.same there source hother hsource⟩
  have hheld : later.stat (store.entry template) = .ok (.file (.ofText text) tree.now) :=
    FileTree.stat_eq_ok.mpr ⟨place, hw.locate, hw.entry⟩
  have hread : later.readText (store.entry template) = .ok text :=
    FileTree.readText_eq_ok.mpr ⟨place, _, _, hw.locate, hw.entry, FileTree.text?_ofText text⟩
  exact store.lookup_of_newer hread hstat hheld hold journal

/-- Whether a module can be stored is no matter of the module. -/
theorem insert_congr (text other : String) (tree : FileTree) :
    (store.insert template text tree).1 = (store.insert template other tree).1 := by
  unfold insert
  rcases tree.ensureDir store.dir with ⟨error | ⟨⟩, made⟩
  · rfl
  have hwrite := made.writeFile_congr (store.entry template) text other
  dsimp only
  generalize made.writeFile (store.entry template) text = first at hwrite
  generalize made.writeFile (store.entry template) other = second at hwrite
  obtain ⟨result, later⟩ := first
  obtain ⟨again, last⟩ := second
  obtain rfl : result = again := hwrite
  cases result with
  | error error => rfl
  | ok => rfl

end ModuleStore

end Stache
