import Mathlib.Logic.Relation
import Stache.Files.Write
import Stache.Proofs.Outcome

/-!
# What writing changes

Directories are only made where nothing stood, and files are only written at places without a directory. So
a path that leads somewhere leads there afterwards, too, and all files but the written ones stay what they
were.

* `FileTree.Changed` -- the later tree has more directories, and other files at some places at most;
* `Changed.locate`, `Changed.target` -- paths lead where they led, to read and to write;
* `Makes`, `ensureDir_makes`, `ensureDir_changed` -- directories are made one by one, and no file is written;
* `Wrote`, `replaceFile_wrote`, `writeFile_spec` -- to write a file writes it where its path leads;
* `replaceFile_congr`, `writeFile_congr` -- whether that is possible is no matter of the content;
* `stat_eq_ok`, `readText_eq_ok` -- what is read is what stands where the path leads.
-/

namespace Stache.FileTree

/-! ## 1. Following a path -/

theorem isDirAt_iff {tree : FileTree} {place : Location} :
    tree.isDirAt place = true ↔ ∃ modified, tree.entryAt? place = some (.dir modified) := by
  unfold isDirAt
  cases tree.entryAt? place with
  | none => exact ⟨nofun, nofun⟩
  | some entry =>
    cases entry with
    | file => exact ⟨nofun, nofun⟩
    | dir modified => exact ⟨fun _ => ⟨modified, rfl⟩, fun _ => rfl⟩

/-- Where one part leads from a place. -/
def enter (tree : FileTree) (place : Location) (part : List Char) : Except IoError Location :=
  if !tree.isDirAt place then .error .notADirectory
  else if Path.isEmptyPart part then .ok place
  else if part = ['.', '.'] then .ok place.dropLast
  else
    let name := String.ofList part
    if maxName < name.utf8ByteSize then .error .nameTooLong
    else
      match tree.entryAt? (place ++ [name]) with
      | none => .error .notFound
      | some _ => .ok (place ++ [name])

theorem descend_cons (tree : FileTree) (place : Location) (part : List Char) (parts : List (List Char)) :
    tree.descend place (part :: parts) = tree.enter place part >>= (tree.descend · parts) := by
  unfold enter
  rw [descend]
  split
  · rfl
  split
  · rfl
  split
  · rfl
  dsimp only
  split
  · rfl
  cases tree.entryAt? (place ++ [String.ofList part]) with
  | none => rfl
  | some entry => rfl

theorem descend_append (tree : FileTree) (place : Location) (front back : List (List Char)) :
    tree.descend place (front ++ back) = tree.descend place front >>= (tree.descend · back) := by
  induction front generalizing place with
  | nil => rfl
  | cons part front ih =>
    rw [List.cons_append, descend_cons, descend_cons]
    cases tree.enter place part with
    | error error => rfl
    | ok next => exact ih next

section Steps

variable {tree : FileTree} {place there : Location}

/-- Parts lead somewhere if the first one leads to where the others go on from. -/
theorem descend_cons_eq_ok {part : List Char} {parts : List (List Char)} :
    tree.descend place (part :: parts) = .ok there ↔
      ∃ next, tree.enter place part = .ok next ∧ tree.descend next parts = .ok there := by
  rw [descend_cons, bind_eq_ok]

theorem descend_append_eq_ok {front back : List (List Char)} :
    tree.descend place (front ++ back) = .ok there ↔
      ∃ next, tree.descend place front = .ok next ∧ tree.descend next back = .ok there := by
  rw [descend_append, bind_eq_ok]

/-- Who goes on from a place is in a directory. -/
theorem isDirAt_of_enter {part : List Char} (h : tree.enter place part = .ok there) :
    tree.isDirAt place = true := by
  unfold enter at h
  split at h
  · cases h
  · simpa using ‹¬ (!tree.isDirAt place) = true›

/-- Where a part leads, it leads as long as the place is a directory and something stands where it led. -/
theorem enter_of_kept {later : FileTree} {part : List Char}
    (hdir : tree.isDirAt place = true → later.isDirAt place = true)
    (hentry : (tree.entryAt? there).isSome = true → (later.entryAt? there).isSome = true)
    (h : tree.enter place part = .ok there) : later.enter place part = .ok there := by
  unfold enter at h ⊢
  cases hd : tree.isDirAt place with
  | false =>
    rw [hd] at h
    cases h
  | true =>
    rw [hd] at h
    rw [hdir hd]
    dsimp only at h ⊢
    split
    · rwa [if_pos ‹_›] at h
    rw [if_neg ‹_›] at h
    split
    · rwa [if_pos ‹_›] at h
    rw [if_neg ‹_›] at h
    split
    · rwa [if_pos ‹_›] at h
    rw [if_neg ‹_›] at h
    split
    · rwa [if_pos ‹_›] at h
    rw [if_neg ‹_›] at h
    cases he : tree.entryAt? (place ++ [String.ofList part]) with
    | none =>
      rw [he] at h
      cases h
    | some entry =>
      rw [he] at h
      cases h
      obtain ⟨other, ho⟩ := Option.isSome_iff_exists.mp (hentry (by rw [he]; rfl))
      rw [ho]

end Steps

theorem locate_eq_ok {tree : FileTree} {p : Path} {place : Location} :
    tree.locate p = .ok place ↔
      checkSpelling p = .ok ⟨⟩ ∧ tree.descend (tree.origin p).1 (tree.origin p).2 = .ok place := by
  unfold locate
  cases checkSpelling p with
  | error error => exact ⟨nofun, fun h => nomatch h.1⟩
  | ok => exact ⟨fun h => ⟨rfl, h⟩, fun h => h.2⟩

/-! ## 2. Trees that differ -/

/-- The later tree has directories more where nothing stood, and other files at the given places at most. -/
structure Changed (places : Location → Prop) (tree later : FileTree) : Prop where
  cwd : later.cwd = tree.cwd
  now : later.now = tree.now
  kind : ∀ place entry, tree.entryAt? place = some entry →
    ∃ other, later.entryAt? place = some other ∧ other.isFile = entry.isFile
  same : ∀ place entry, ¬ places place → tree.entryAt? place = some entry →
    later.entryAt? place = some entry
  old : ∀ place content modified, ¬ places place →
    later.entryAt? place = some (.file content modified) →
    tree.entryAt? place = some (.file content modified)

/-- Nowhere. -/
def nowhere (_ : Location) : Prop := False

namespace Changed

variable {places : Location → Prop} {tree later last : FileTree} {place there : Location}

theorem refl (tree : FileTree) : Changed places tree tree :=
  ⟨rfl, rfl, fun _ entry h => ⟨entry, h, rfl⟩, fun _ _ _ h => h, fun _ _ _ _ h => h⟩

theorem trans (h : Changed places tree later) (h' : Changed places later last) :
    Changed places tree last where
  cwd := h'.cwd.trans h.cwd
  now := h'.now.trans h.now
  kind place entry he := by
    obtain ⟨other, ho, hother⟩ := h.kind place entry he
    obtain ⟨again, ha, hagain⟩ := h'.kind place other ho
    exact ⟨again, ha, hagain.trans hother⟩
  same place entry hn he := h'.same place entry hn (h.same place entry hn he)
  old place content modified hn he := h.old place content modified hn (h'.old place content modified hn he)

theorem mono {others : Location → Prop} (h : Changed places tree later)
    (hp : ∀ place, places place → others place) : Changed others tree later :=
  ⟨h.cwd, h.now, h.kind, fun place entry hn => h.same place entry fun ho => hn (hp place ho),
    fun place content modified hn => h.old place content modified fun ho => hn (hp place ho)⟩

/-- Who writes nowhere writes at these places at most. -/
theorem ofNowhere (h : Changed nowhere tree later) : Changed places tree later :=
  h.mono fun _ => False.elim

theorem isDirAt (h : Changed places tree later) (hd : tree.isDirAt place = true) :
    later.isDirAt place = true := by
  obtain ⟨modified, hentry⟩ := isDirAt_iff.mp hd
  obtain ⟨other, ho, hkind⟩ := h.kind place _ hentry
  cases other with
  | file => cases hkind
  | dir modified => exact isDirAt_iff.mpr ⟨modified, ho⟩

theorem enter (h : Changed places tree later) {part : List Char}
    (he : tree.enter place part = .ok there) : later.enter place part = .ok there := by
  refine enter_of_kept h.isDirAt (fun hs => ?_) he
  obtain ⟨entry, hentry⟩ := Option.isSome_iff_exists.mp hs
  obtain ⟨other, ho, _⟩ := h.kind _ _ hentry
  rw [ho]
  rfl

/-- The parts of a path lead where they led. -/
theorem descend (h : Changed places tree later) {parts : List (List Char)}
    (hd : tree.descend place parts = .ok there) : later.descend place parts = .ok there := by
  induction parts generalizing place with
  | nil => exact hd
  | cons part parts ih =>
    obtain ⟨next, hnext, hrest⟩ := descend_cons_eq_ok.mp hd
    exact descend_cons_eq_ok.mpr ⟨next, h.enter hnext, ih hrest⟩

theorem origin (h : Changed places tree later) (p : Path) : later.origin p = tree.origin p := by
  unfold FileTree.origin
  rw [h.cwd]

/-- **Paths lead where they led.** -/
theorem locate (h : Changed places tree later) {p : Path} (hp : tree.locate p = .ok place) :
    later.locate p = .ok place := by
  rw [locate_eq_ok] at hp ⊢
  rw [h.origin p]
  exact ⟨hp.1, h.descend hp.2⟩

end Changed

/-! ## 3. One entry -/

variable {tree later : FileTree} {place other : Location}

theorem entryAt?_insertAt (hp : place ≠ []) (entry : Entry) :
    (tree.insertAt place entry).entryAt? other =
      if place = other then some entry else tree.entryAt? other := by
  unfold entryAt? insertAt
  dsimp only
  by_cases ho : other = []
  · subst ho
    rw [if_pos rfl, if_pos rfl, if_neg hp]
  · rw [if_neg ho, if_neg ho, Std.ExtTreeMap.getElem?_insert]
    simp only [Std.LawfulEqCmp.compare_eq_iff_eq]

/-- A directory is made where nothing stood. -/
theorem changed_dir (hp : place ≠ []) (hn : tree.entryAt? place = none) (modified : Int) :
    Changed nowhere tree (tree.insertAt place (.dir modified)) := by
  have hsame {there : Location} {entry : Entry} (he : tree.entryAt? there = some entry) :
      (tree.insertAt place (.dir modified)).entryAt? there = some entry := by
    rw [entryAt?_insertAt hp, if_neg]
    · exact he
    · rintro rfl
      rw [hn] at he
      cases he
  refine ⟨rfl, rfl, fun there entry he => ⟨entry, hsame he, rfl⟩, fun there entry _ he => hsame he, ?_⟩
  intro there content time _ he
  rw [entryAt?_insertAt hp] at he
  split at he
  · cases he
  · exact he

/-- A file is written where no directory stands. -/
theorem changed_file (hp : place ≠ []) (hd : ∀ modified, tree.entryAt? place ≠ some (.dir modified))
    (content : Content) (modified : Int) :
    Changed (· = place) tree (tree.insertAt place (.file content modified)) := by
  refine ⟨rfl, rfl, fun there entry he => ?_, fun there entry hn he => ?_, fun there _ _ hn he => ?_⟩
  · rw [entryAt?_insertAt hp]
    by_cases ht : place = there
    · subst ht
      cases entry with
      | file => exact ⟨_, if_pos rfl, rfl⟩
      | dir time => exact absurd he (hd time)
    · exact ⟨entry, (if_neg ht).trans he, rfl⟩
  · rw [entryAt?_insertAt hp, if_neg fun e => hn e.symm]
    exact he
  · rw [entryAt?_insertAt hp, if_neg fun e => hn e.symm] at he
    exact he

/-! ## 4. Directories -/

theorem makeDir_changed {p : Path} (h : tree.makeDir p = .ok later) : Changed nowhere tree later := by
  unfold makeDir at h
  cases htarget : tree.target p with
  | error error =>
    rw [htarget] at h
    cases h
  | ok found =>
    obtain ⟨place, last, slash⟩ := found
    rw [htarget] at h
    simp only [bind, Except.bind] at h
    split at h
    · cases h
    split at h
    · cases h
    split at h
    · cases h
    · rename_i hnone
      cases h
      exact changed_dir (by simp) hnone _

/-- Directories are made, one after the other. -/
def Makes : FileTree → FileTree → Prop :=
  Relation.ReflTransGen fun tree later => ∃ p, tree.makeDir p = .ok later

theorem Makes.changed (h : Makes tree later) : Changed nowhere tree later := by
  induction h with
  | refl => exact .refl tree
  | tail _ hmake ih =>
    obtain ⟨p, hmake⟩ := hmake
    exact ih.trans (makeDir_changed hmake)

theorem settled_makes (p : Path) (error : IoError) : Makes tree (makeDirs.settled tree p error).2 := by
  unfold makeDirs.settled
  split
  · exact .refl
  · exact .refl

theorem makeAgain_makes (p : Path) : Makes tree (makeDirs.makeAgain tree p).2 := by
  unfold makeDirs.makeAgain
  cases hmake : tree.makeDir p with
  | ok made => exact .single ⟨p, hmake⟩
  | error error => exact settled_makes p error

theorem makeDirs_makes (dirs : List Path) : Makes tree (tree.makeDirs dirs).2 := by
  induction dirs generalizing tree with
  | nil => exact .refl
  | cons dir above ih =>
    unfold makeDirs
    split
    · exact .refl
    cases hmake : tree.makeDir dir with
    | ok made => exact .single ⟨dir, hmake⟩
    | error error =>
      cases error with
      | notFound =>
        dsimp only
        have habove : Makes tree (tree.makeDirs above).2 := ih
        generalize tree.makeDirs above = result at habove ⊢
        obtain ⟨error | ⟨⟩, made⟩ := result
        · exact habove
        · exact habove.trans (makeAgain_makes dir)
      | _ => exact settled_makes dir _

/-- **To make sure that a directory is there makes directories**, also if it fails on the way. -/
theorem ensureDir_makes (dir : Path) : Makes tree (tree.ensureDir dir).2 := by
  unfold ensureDir
  split
  · split
    · exact .refl
    · exact .refl
  · have hmake : Makes tree (tree.makeDirs dir.ancestors).2 := makeDirs_makes _
    generalize tree.makeDirs dir.ancestors = result at hmake ⊢
    obtain ⟨error | ⟨⟩, made⟩ := result
    · exact hmake
    · exact hmake

/-- So it writes no file. -/
theorem ensureDir_changed (dir : Path) : Changed nowhere tree (tree.ensureDir dir).2 :=
  (ensureDir_makes dir).changed

/-! ## 5. Files -/

/-- The target of a path that no separator follows: its last part, in the directory that the parts before
    lead to. -/
theorem target_spec {p : Path} {last : List Char} (h : tree.target p = .ok (place, last, false)) :
    checkSpelling p = .ok ⟨⟩ ∧ ∃ front, (tree.origin p).2 = front ++ [last] ∧
      tree.descend (tree.origin p).1 front = .ok place ∧ tree.isDirAt place = true := by
  unfold target at h
  cases hcheck : checkSpelling p with
  | error error =>
    rw [hcheck] at h
    cases h
  | ok =>
    rw [hcheck] at h
    simp only [bind, Except.bind] at h
    generalize htrimmed : ((tree.origin p).2.reverse.dropWhile (· == [])).reverse = trimmed at h
    cases hlast : trimmed.getLast? with
    | none =>
      rw [hlast] at h
      cases h
    | some part =>
      rw [hlast] at h
      dsimp only at h
      cases hd : tree.descend (tree.origin p).1 trimmed.dropLast with
      | error error =>
        rw [hd] at h
        cases h
      | ok found =>
        rw [hd] at h
        dsimp only at h
        split at h
        · simp only [Except.ok.injEq, Prod.mk.injEq, bne_eq_false_iff_eq] at h
          obtain ⟨rfl, rfl, hlength⟩ := h
          -- nothing was trimmed
          have hprefix : trimmed <+: (tree.origin p).2 := by
            rw [← htrimmed, ← List.reverse_suffix, List.reverse_reverse]
            exact List.dropWhile_suffix _
          have hparts := hprefix.eq_of_length hlength.symm
          obtain ⟨front, rfl⟩ := List.getLast?_eq_some_iff.mp hlast
          rw [List.dropLast_concat] at hd
          exact ⟨rfl, front, hparts.symm, hd, ‹_›⟩
        · cases h

/-- A path has the target that it had. -/
theorem Changed.target {places : Location → Prop} {p : Path} {found : Location × List Char × Bool}
    (h : Changed places tree later) (ht : tree.target p = .ok found) : later.target p = .ok found := by
  unfold FileTree.target at ht ⊢
  cases hcheck : checkSpelling p with
  | error error =>
    rw [hcheck] at ht
    cases ht
  | ok =>
    rw [hcheck] at ht
    rw [h.origin]
    simp only [bind, Except.bind] at ht ⊢
    generalize ((tree.origin p).2.reverse.dropWhile (· == [])).reverse = trimmed at ht ⊢
    cases hlast : trimmed.getLast? with
    | none =>
      rw [hlast] at ht
      exact ht
    | some part =>
      rw [hlast] at ht
      dsimp only at ht ⊢
      cases hd : tree.descend (tree.origin p).1 trimmed.dropLast with
      | error error =>
        rw [hd] at ht
        cases ht
      | ok place =>
        rw [hd] at ht
        rw [h.descend hd]
        dsimp only at ht ⊢
        split at ht
        · rwa [if_pos (h.isDirAt ‹_›)]
        · cases ht

/-- In the later tree a file stands where the path leads, with this content, and no other file was
    written. -/
structure Wrote (p : Path) (content : Content) (tree : FileTree) (place : Location) (later : FileTree) :
    Prop where
  changed : Changed (· = place) tree later
  locate : later.locate p = .ok place
  entry : later.entryAt? place = some (.file content tree.now)

theorem enter_of_name {part : List Char} (hd : tree.isDirAt place = true)
    (hname : ¬ (!isNamePart part) = true) (hlong : ¬ maxName < (String.ofList part).utf8ByteSize)
    (he : (tree.entryAt? (place ++ [String.ofList part])).isSome = true) :
    tree.enter place part = .ok (place ++ [String.ofList part]) := by
  unfold isNamePart at hname
  simp only [Bool.not_eq_true', Bool.and_eq_false_iff, not_or, Bool.not_eq_false, bne_iff_ne]
    at hname
  unfold enter
  rw [hd, if_neg (by simp), if_neg (by simp [hname.1]), if_neg (by simpa using hname.2)]
  dsimp only
  rw [if_neg hlong]
  cases hentry : tree.entryAt? (place ++ [String.ofList part]) with
  | none =>
    rw [hentry] at he
    cases he
  | some entry => rfl

/-- **To write a file writes it where its path leads.** -/
theorem replaceFile_wrote {p : Path} {content : Content} (h : tree.replaceFile p content = .ok later) :
    ∃ place, Wrote p content tree place later := by
  unfold replaceFile at h
  cases htarget : tree.target p with
  | error error =>
    rw [htarget] at h
    cases h
  | ok found =>
    obtain ⟨dir, last, slash⟩ := found
    rw [htarget] at h
    simp only [bind, Except.bind] at h
    split at h
    · cases h
    split at h
    · cases h
    split at h
    · cases h
    rename_i hname hlong hslash
    rw [Bool.not_eq_true] at hslash
    subst hslash
    obtain ⟨hcheck, front, hparts, hfront, hdir⟩ := target_spec htarget
    have hwritten (hfree : ∀ modified, tree.entryAt? (dir ++ [String.ofList last]) ≠ some (.dir modified))
        (hlater : tree.insertAt (dir ++ [String.ofList last]) (.file content tree.now) = later) :
        ∃ place, Wrote p content tree place later := by
      subst hlater
      have hplace : dir ++ [String.ofList last] ≠ [] := by simp
      have hchanged := changed_file hplace hfree content tree.now
      have hentry : (tree.insertAt (dir ++ [String.ofList last]) (.file content tree.now)).entryAt?
          (dir ++ [String.ofList last]) = some (.file content tree.now) := by
        rw [entryAt?_insertAt hplace, if_pos rfl]
      refine ⟨dir ++ [String.ofList last], hchanged, ?_, hentry⟩
      rw [locate_eq_ok, hchanged.origin, hparts, descend_append, hchanged.descend hfront]
      refine ⟨hcheck, ?_⟩
      show descend _ dir [last] = _
      rw [descend_cons, enter_of_name (hchanged.isDirAt hdir) hname hlong (by rw [hentry]; rfl)]
      rfl
    split at h
    · cases h
    · rename_i hfree
      exact hwritten (fun modified he => hfree modified he) (Except.ok.inj h)

/-- Directories may be made before. -/
theorem Wrote.after {made : FileTree} {p : Path} {content : Content} (h : Changed nowhere tree made)
    (hw : Wrote p content made place later) : Wrote p content tree place later :=
  ⟨h.ofNowhere.trans hw.changed, hw.locate, by rw [hw.entry, h.now]⟩

/-- What it comes to that a file is written with all directories that it needs: it was written, or no file
    was. -/
inductive Written {ε α : Type} (p : Path) (content : Content) (tree : FileTree) :
    Except ε α × FileTree → Prop where
  | wrote {result : α} {place : Location} {later : FileTree} (wrote : Wrote p content tree place later) :
    Written p content tree (.ok result, later)
  | failed {error : ε} {later : FileTree} (kept : Changed nowhere tree later) :
    Written p content tree (.error error, later)

/-- **To write a file** comes to one of these. -/
theorem writeFile_spec (tree : FileTree) (p : Path) (text : String) :
    Written p (.ofText text) tree (tree.writeFile p text) := by
  have hmade : Changed nowhere tree (tree.ensureDir (dirOf p)).2 := ensureDir_changed _
  unfold writeFile
  generalize tree.ensureDir (dirOf p) = result at hmade ⊢
  obtain ⟨error | ⟨⟩, made⟩ := result
  · exact .failed hmade
  dsimp only
  cases hwrite : made.replaceFile p (.ofText text) with
  | error error => exact .failed hmade
  | ok later =>
    obtain ⟨place, hwrote⟩ := replaceFile_wrote hwrite
    exact .wrote (hwrote.after hmade)

/-- A directory that is there is not made. -/
theorem ensureDir_of_hasDir {dir : Path} (h : tree.hasDir dir = true) :
    tree.ensureDir dir = (.ok ⟨⟩, tree) := by
  have hhas : tree.has dir = true := by
    unfold hasDir at h
    unfold has
    cases hstat : tree.stat dir with
    | error error =>
      rw [hstat] at h
      cases h
    | ok entry => rfl
  rw [ensureDir, if_pos hhas, if_pos h]

/-- **A file can be written** into a directory, unless a directory stands there under its name. -/
theorem writeFile_of_target {p : Path} {dir : Location} {last : List Char}
    (hdir : tree.hasDir (dirOf p) = true) (htarget : tree.target p = .ok (dir, last, false))
    (hname : isNamePart last = true) (hlong : (String.ofList last).utf8ByteSize ≤ maxName)
    (hfree : ∀ modified, tree.entryAt? (dir ++ [String.ofList last]) ≠ some (.dir modified))
    (text : String) : tree.writeFile p text =
      (.ok ⟨⟩, tree.insertAt (dir ++ [String.ofList last]) (.file (.ofText text) tree.now)) := by
  have hreplace : tree.replaceFile p (.ofText text) =
      .ok (tree.insertAt (dir ++ [String.ofList last]) (.file (.ofText text) tree.now)) := by
    have hshort : ¬ maxName < (String.ofList last).utf8ByteSize := Nat.not_lt.mpr hlong
    unfold replaceFile
    rw [htarget]
    simp only [bind, Except.bind, hname, hshort, Bool.not_true, Bool.false_eq_true, if_false]
  unfold writeFile
  rw [ensureDir_of_hasDir hdir]
  dsimp only
  rw [hreplace]

/-- Whether a file can be written is no matter of its content. -/
theorem replaceFile_congr (tree : FileTree) (p : Path) (content other : Content) :
    ((tree.replaceFile p content).map fun _ => ()) = ((tree.replaceFile p other).map fun _ => ()) := by
  unfold replaceFile
  cases tree.target p with
  | error error => rfl
  | ok found =>
    obtain ⟨place, last, slash⟩ := found
    simp only [bind, Except.bind]
    split
    · rfl
    split
    · rfl
    split
    · rfl
    split
    · rfl
    · rfl

theorem writeFile_congr (tree : FileTree) (p : Path) (text other : String) :
    (tree.writeFile p text).1 = (tree.writeFile p other).1 := by
  unfold writeFile
  rcases tree.ensureDir (dirOf p) with ⟨error | ⟨⟩, made⟩
  · rfl
  have hreplace := made.replaceFile_congr p (.ofText text) (.ofText other)
  dsimp only
  generalize made.replaceFile p (.ofText text) = first at hreplace
  generalize made.replaceFile p (.ofText other) = second at hreplace
  cases first with
  | error error =>
    cases second with
    | error other =>
      cases hreplace
      rfl
    | ok => cases hreplace
  | ok =>
    cases second with
    | error => cases hreplace
    | ok => rfl

/-! ## 6. Reading -/

/-- What is found is what stands where the path leads. -/
theorem stat_eq_ok {p : Path} {entry : Entry} : tree.stat p = .ok entry ↔
    ∃ place, tree.locate p = .ok place ∧ tree.entryAt? place = some entry := by
  unfold stat
  cases hplace : tree.locate p with
  | error error =>
    constructor
    · rintro ⟨⟩
    · rintro ⟨_, ⟨⟩, _⟩
  | ok place =>
    simp only [bind, Except.bind]
    cases he : tree.entryAt? place with
    | none =>
      constructor
      · rintro ⟨⟩
      · rintro ⟨_, ⟨⟩, h⟩
        rw [he] at h
        cases h
    | some other =>
      constructor
      · rintro ⟨⟩
        exact ⟨place, rfl, he⟩
      · rintro ⟨_, ⟨⟩, h⟩
        rw [he] at h
        cases h
        rfl

/-- A path leads to a directory if one stands there. -/
theorem hasDir_iff {p : Path} : tree.hasDir p = true ↔
    ∃ place, tree.locate p = .ok place ∧ tree.isDirAt place = true := by
  unfold hasDir isDirAt
  constructor
  · intro h
    cases hstat : tree.stat p with
    | error error =>
      rw [hstat] at h
      cases h
    | ok entry =>
      rw [hstat] at h
      obtain ⟨place, hplace, hentry⟩ := stat_eq_ok.mp hstat
      refine ⟨place, hplace, ?_⟩
      rw [hentry]
      cases entry with
      | file => cases h
      | dir => rfl
  · rintro ⟨place, hplace, h⟩
    cases hentry : tree.entryAt? place with
    | none =>
      rw [hentry] at h
      cases h
    | some entry =>
      rw [hentry] at h
      rw [stat_eq_ok.mpr ⟨place, hplace, hentry⟩]
      cases entry with
      | file => cases h
      | dir => rfl

/-- A directory stays one. -/
theorem Changed.hasDir {places : Location → Prop} {p : Path} (h : Changed places tree later)
    (hd : tree.hasDir p = true) : later.hasDir p = true := by
  obtain ⟨place, hplace, hdir⟩ := hasDir_iff.mp hd
  exact hasDir_iff.mpr ⟨place, h.locate hplace, h.isDirAt hdir⟩

/-- What is read is the text of the file that the path leads to. -/
theorem readText_eq_ok {p : Path} {text : String} : tree.readText p = .ok text ↔
    ∃ place content modified, tree.locate p = .ok place ∧
      tree.entryAt? place = some (.file content modified) ∧ content.text? = some text := by
  constructor
  · intro h
    unfold readText at h
    cases hstat : tree.stat p with
    | error error =>
      rw [hstat] at h
      cases h
    | ok entry =>
      obtain ⟨place, hplace, hentry⟩ := stat_eq_ok.mp hstat
      rw [hstat] at h
      simp only [bind, Except.bind] at h
      cases entry with
      | dir modified => cases h
      | file content modified =>
        dsimp only at h
        cases htext : content.text? with
        | none =>
          rw [htext] at h
          cases h
        | some other =>
          rw [htext] at h
          cases h
          exact ⟨place, content, modified, hplace, hentry, htext⟩
  · rintro ⟨place, content, modified, hplace, hentry, htext⟩
    unfold readText
    rw [stat_eq_ok.mpr ⟨place, hplace, hentry⟩]
    simp only [bind, Except.bind]
    rw [htext]

theorem readText_of_stat {p : Path} {content : Content} {modified : Int} {text : String}
    (h : tree.stat p = .ok (.file content modified)) (htext : content.text? = some text) :
    tree.readText p = .ok text := by
  obtain ⟨place, hplace, hentry⟩ := stat_eq_ok.mp h
  exact readText_eq_ok.mpr ⟨place, content, modified, hplace, hentry, htext⟩

/-- A text is read as it was written. -/
theorem text?_ofText (text : String) : (Content.ofText text).text? = some text := by
  show String.fromUTF8? text.toUTF8 = some text
  unfold String.fromUTF8?
  rw [dif_pos (show text.toUTF8.IsValidUTF8 from text.isValidUTF8)]
  rfl

end Stache.FileTree
