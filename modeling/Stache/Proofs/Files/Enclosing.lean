import Stache.Proofs.Files.Ancestors

/-!
# The directory of a file

The directory that a file is written in is spelled by the parts in front of the name, without what adds nothing
at their end. Where it is there, a file is written without making any directory; and then only those paths lead
elsewhere that lead to the file, or run into it.

* `checkSpelling_eq_ok`, `checkSpelling_of_sublist` -- which spellings are refused;
* `hasDir_dirOf` -- **the directory that a file is written in is there** if the parts in front of the name lead
  to a directory;
* `descend_insertAt`, `stat_insertAt` -- **paths that lead elsewhere led there before the file was written**;
* `stat_insertAt_of_dir` -- in a directory that is there, not even an error changes.
-/

namespace Stache

/-! ## 1. Spellings -/

theorem utf8ByteSize_le_of_sublist {some all : List Char} (h : some.Sublist all) :
    (String.ofList some).utf8ByteSize ≤ (String.ofList all).utf8ByteSize := by
  induction h with
  | slnil => exact Nat.le_refl _
  | cons c _ ih =>
    rw [String.ofList_cons, String.utf8ByteSize_append]
    exact Nat.le_trans ih (Nat.le_add_left ..)
  | cons_cons c _ ih =>
    rw [String.ofList_cons, String.ofList_cons, String.utf8ByteSize_append, String.utf8ByteSize_append]
    exact Nat.add_le_add_left ih _

namespace Path

/-- Fewer parts are spelled by fewer characters. -/
theorem joinParts_sublist {some all : List (List Char)} (h : some.Sublist all) :
    (joinParts some).toList.Sublist (joinParts all).toList := by
  unfold joinParts
  rw [String.toList_ofList, String.toList_ofList]
  induction h with
  | slnil => exact .refl _
  | @cons some all part h ih =>
    cases all with
    | nil =>
      cases h
      exact List.nil_sublist _
    | cons next all =>
      rw [List.intercalate_cons_cons]
      exact ih.trans (List.sublist_append_right _ _)
  | @cons_cons some all part h ih =>
    cases all with
    | nil =>
      cases h
      exact .refl _
    | cons next all =>
      rw [List.intercalate_cons_cons]
      cases some with
      | nil =>
        rw [List.intercalate_singleton, List.append_assoc]
        exact List.sublist_append_left _ _
      | cons first some =>
        rw [List.intercalate_cons_cons]
        exact (List.Sublist.refl _).append ih

end Path

namespace FileTree

variable {tree : FileTree} {place there : Location}

/-- A spelling is taken if it is not empty, has no NUL and is not too long. -/
theorem checkSpelling_eq_ok {p : Path} : checkSpelling p = .ok ⟨⟩ ↔
    '\x00' ∉ p.text.toList ∧ p.text ≠ "" ∧ p.text.utf8ByteSize < maxPath := by
  unfold checkSpelling
  split
  · simp_all
  split
  · simp_all
  split
  · rename_i hlong
    simp [Nat.not_lt.mpr hlong]
  · simp_all

/-- Some characters of a spelling are a spelling that is taken, too. -/
theorem checkSpelling_of_sublist {p q : Path} (hp : checkSpelling p = .ok ⟨⟩) (hq : q.text ≠ "")
    (h : q.text.toList.Sublist p.text.toList) : checkSpelling q = .ok ⟨⟩ := by
  obtain ⟨hnul, _, hlong⟩ := checkSpelling_eq_ok.mp hp
  have hsize := utf8ByteSize_le_of_sublist h
  rw [String.ofList_toList, String.ofList_toList] at hsize
  exact checkSpelling_eq_ok.mpr ⟨fun hm => hnul (h.subset hm), hq, Nat.lt_of_le_of_lt hsize hlong⟩

/-- The parts of a name that is joined to a path stand behind those of the path, up to a separator at its
    end. -/
theorem origin_join (tree : FileTree) (p : Path) {name : String} (hname : '/' ∉ name.toList)
    (hne : name.toList ≠ []) : (tree.origin (p.join ⟨name⟩)).1 = (tree.origin p).1 ∧ ∃ front,
      (tree.origin (p.join ⟨name⟩)).2 = front ++ [name.toList] ∧
      ((tree.origin p).2 = front ∨ (tree.origin p).2 = front ++ [[]]) := by
  obtain ⟨habsolute, front, hjoin, hparts⟩ := p.parts_join (Path.isAbsolute_name hname)
  rw [Path.parts_name hname] at hjoin
  unfold origin
  rw [habsolute, hjoin]
  cases hp : p.isAbsolute with
  | false => exact ⟨rfl, front, rfl, hparts⟩
  | true =>
    refine ⟨rfl, ?_⟩
    obtain ⟨rest, hrest⟩ := Path.parts_of_isAbsolute (habsolute.trans hp)
    cases front with
    | nil => exact absurd (List.cons.inj (hjoin.symm.trans hrest)).1 hne
    | cons first front =>
      refine ⟨front, rfl, ?_⟩
      rcases hparts with hparts | hparts
      · exact .inl (congrArg (List.drop 1) hparts)
      · exact .inr (congrArg (List.drop 1) hparts)

/-- A separator at the end leads nowhere else. -/
theorem descend_concat_nil {parts : List (List Char)} (hdir : tree.isDirAt there = true) :
    tree.descend place (parts ++ [[]]) = .ok there ↔ tree.descend place parts = .ok there := by
  rw [descend_append_eq_ok]
  constructor
  · rintro ⟨next, hparts, hnothing⟩
    obtain rfl : there = next := place_of_descend hnothing
    exact hparts
  · intro hparts
    refine ⟨there, hparts, ?_⟩
    rw [descend_cons, enter, hdir]
    rfl

/-! ## 2. The directory that a file is written in -/

/-- Parts that add nothing lead nowhere else. -/
theorem descend_empties {parts : List (List Char)} (h : ∀ part ∈ parts, Path.isEmptyPart part = true)
    (hd : tree.descend place parts = .ok there) : there = place := by
  rw [place_of_descend hd]
  clear hd
  induction parts with
  | nil => rfl
  | cons part parts ih =>
    obtain ⟨hpart, hparts⟩ := List.forall_mem_cons.mp h
    rw [List.foldl_cons, Path.follow, if_pos hpart]
    exact ih hparts

/-- So they can be left out at the end. -/
theorem descend_trimParts {parts : List (List Char)} (h : tree.descend place parts = .ok there) :
    tree.descend place (Path.trimParts parts) = .ok there := by
  have hall : Path.trimParts parts ++ parts.rtakeWhile Path.isEmptyPart = parts :=
    List.rdropWhile_append_rtakeWhile
  rw [← hall] at h
  obtain ⟨next, hfront, hrest⟩ := descend_append_eq_ok.mp h
  rwa [descend_empties (fun _ hm => List.mem_rtakeWhile_imp hm) hrest]

theorem trimParts_concat {front : List (List Char)} {last : List Char}
    (hlast : Path.isEmptyPart last = false) : Path.trimParts (front ++ [last]) = front ++ [last] := by
  show List.rdropWhile Path.isEmptyPart _ = _
  exact List.rdropWhile_concat_neg _ _ _ (by simp [hlast])

theorem left_concat {front : List (List Char)} {last : List Char}
    (hlast : Path.isEmptyPart last = false) : Path.left (front ++ [last]) = Path.trimParts front := by
  unfold Path.left
  rw [trimParts_concat hlast, List.dropLast_concat]

/-- Some parts of a path are a path, if they are more than one empty part. -/
theorem locate_joinParts {p : Path} {first : List Char} {parts : List (List Char)}
    (hcheck : checkSpelling p = .ok ⟨⟩) (hparts : (first :: parts).Sublist p.parts) (hne : first ≠ [] ∨ parts ≠ [])
    (hd : (if first = [] then tree.descend [] parts else tree.descend tree.cwd (first :: parts)) = .ok place) :
    Path.joinParts (first :: parts) ≠ "" ∧ tree.locate ⟨Path.joinParts (first :: parts)⟩ = .ok place := by
  have hjoined : Path.parts ⟨Path.joinParts (first :: parts)⟩ = first :: parts :=
    Path.parts_joinParts (fun part hm => Path.not_mem_part (hparts.subset hm)) (List.cons_ne_nil _ _)
  have htext : Path.joinParts (first :: parts) ≠ "" := by
    intro hempty
    rw [hempty] at hjoined
    obtain ⟨rfl, rfl⟩ := List.cons.inj (hjoined.symm.trans (show Path.parts ⟨""⟩ = [[]] from rfl))
    simp at hne
  refine ⟨htext, locate_eq_ok.mpr ⟨checkSpelling_of_sublist hcheck htext ?_, ?_⟩⟩
  · show (Path.joinParts (first :: parts)).toList.Sublist _
    rw [← p.joinParts_parts]
    exact Path.joinParts_sublist hparts
  · unfold origin
    rw [hjoined]
    split at hd
    · rename_i hf
      subst hf
      obtain ⟨next, rest, rfl⟩ := List.exists_cons_of_ne_nil (hne.resolve_left (fun e => e rfl))
      rw [if_pos (Path.components_absolute hjoined).1]
      exact hd
    · rw [(Path.components_relative hjoined ‹_›).1]
      exact hd

section DirOf

variable {p : Path} {front : List (List Char)} {last : List Char}

theorem trimParts_isPrefix (front : List (List Char)) (last : List Char) :
    Path.trimParts front <+: front ++ [last] :=
  (List.rdropWhile_prefix _ front).trans (List.prefix_append front [last])

/-- The directory of an absolute path. -/
theorem locate_dirOf_absolute (hcheck : checkSpelling p = .ok ⟨⟩) (hp : p.parts = [] :: (front ++ [last]))
    (hlast : Path.isEmptyPart last = false) (hfront : tree.descend [] front = .ok place) :
    tree.locate (dirOf p) = .ok place := by
  obtain ⟨first, rest, hrest⟩ : ∃ first rest, front ++ [last] = first :: rest :=
    List.exists_cons_of_ne_nil (by simp)
  have hleads := descend_trimParts hfront
  have htrim := trimParts_isPrefix front last
  unfold dirOf
  rw [Path.parent?_absolute (hp.trans (congrArg _ hrest)), ← hrest, trimParts_concat hlast,
    if_neg (by simp), left_concat hlast]
  cases hleft : Path.trimParts front with
  | nil =>
    rw [hleft] at hleads
    cases hleads
    rfl
  | cons part parts =>
    rw [hleft] at hleads htrim
    have hbegin : [] :: part :: parts <+: p.parts := by
      rw [hp]
      exact (List.prefix_cons_inj []).mpr htrim
    have hfound := locate_joinParts hcheck hbegin.sublist (.inr (List.cons_ne_nil _ _)) (by rwa [if_pos rfl])
    rw [if_neg (List.cons_ne_nil _ _)]
    dsimp only
    rw [if_neg hfound.1]
    exact hfound.2

/-- The directory of a path that begins with `.`. -/
theorem locate_dirOf_current (hcheck : checkSpelling p = .ok ⟨⟩) (hp : p.parts = ['.'] :: (front ++ [last]))
    (hlast : Path.isEmptyPart last = false) (hfront : tree.descend tree.cwd (['.'] :: front) = .ok place) :
    tree.locate (dirOf p) = .ok place := by
  have hbegin : ['.'] :: Path.trimParts front <+: p.parts := by
    rw [hp]
    exact (List.prefix_cons_inj _).mpr (trimParts_isPrefix front last)
  have hleads : tree.descend tree.cwd (['.'] :: Path.trimParts front) = .ok place := by
    obtain ⟨next, hnext, hrest⟩ := descend_cons_eq_ok.mp hfront
    exact descend_cons_eq_ok.mpr ⟨next, hnext, descend_trimParts hrest⟩
  have hdot : ['.'] ≠ [] := List.cons_ne_nil _ _
  have hfound := locate_joinParts hcheck hbegin.sublist (.inl hdot) (by rwa [if_neg hdot])
  unfold dirOf
  rw [Path.parent?_current hp, trimParts_concat hlast, if_neg (by simp), left_concat hlast]
  dsimp only
  rw [if_neg hfound.1]
  exact hfound.2

/-- The directory of another relative path. -/
theorem locate_dirOf_relative (hcheck : checkSpelling p = .ok ⟨⟩) (hp : p.parts = front ++ [last])
    (hlast : Path.isEmptyPart last = false) (hhead : (front ++ [last]).head? ≠ some [])
    (hdot : (front ++ [last]).head? ≠ some ['.']) (hfront : tree.descend tree.cwd front = .ok place)
    (hdir : tree.isDirAt place = true) : tree.locate (dirOf p) = .ok place := by
  obtain ⟨first, rest, hrest⟩ : ∃ first rest, front ++ [last] = first :: rest :=
    List.exists_cons_of_ne_nil (by simp)
  have hleads := descend_trimParts hfront
  have htrim := trimParts_isPrefix front last
  rw [hrest] at hhead hdot htrim
  unfold dirOf
  rw [Path.parent?_relative (hp.trans hrest) (fun e => hhead (congrArg some e))
    (fun e => hdot (congrArg some e)), ← hrest, trimParts_concat hlast, if_neg (by simp), left_concat hlast]
  dsimp only
  cases hleft : Path.trimParts front with
  | nil =>
    -- the working directory
    rw [hleft] at hleads
    obtain rfl : tree.cwd = place := Except.ok.inj hleads
    have hhere : tree.enter tree.cwd ['.'] = .ok tree.cwd := by
      unfold enter
      rw [hdir]
      rfl
    refine locate_eq_ok.mpr ⟨rfl, ?_⟩
    show tree.descend tree.cwd [['.']] = _
    rw [descend_cons, hhere]
    rfl
  | cons part parts =>
    rw [hleft] at hleads htrim
    obtain ⟨rfl, _⟩ := List.cons_prefix_cons.mp htrim
    have hpart : part ≠ [] := fun e => hhead (congrArg some e)
    rw [← hrest, ← hp] at htrim
    have hfound := locate_joinParts hcheck htrim.sublist (.inl hpart) (by rwa [if_neg hpart])
    rw [if_neg hfound.1]
    exact hfound.2

/-- **The directory that a file is written in is there** if the parts in front of the name lead to a
    directory. -/
theorem hasDir_dirOf (hcheck : checkSpelling p = .ok ⟨⟩) (hparts : (tree.origin p).2 = front ++ [last])
    (hlast : Path.isEmptyPart last = false) (hfront : tree.descend (tree.origin p).1 front = .ok place)
    (hdir : tree.isDirAt place = true) : tree.hasDir (dirOf p) = true := by
  refine hasDir_iff.mpr ⟨place, ?_, hdir⟩
  unfold origin at hparts hfront
  rcases p.parts_cases with ⟨first, rest, hp⟩ | rfl | ⟨first, rest, hp, hf⟩
  · rw [if_pos (Path.components_absolute hp).1] at hparts hfront
    rw [hp] at hparts
    exact locate_dirOf_absolute hcheck (hp.trans (congrArg _ hparts)) hlast hfront
  · cases hcheck
  · rw [(Path.components_relative hp hf).1, if_neg Bool.false_ne_true] at hparts hfront
    have hwhole : p.parts = front ++ [last] := hparts
    by_cases hdot : first = ['.']
    · subst hdot
      cases front with
      | nil =>
        obtain ⟨rfl, _⟩ := List.cons.inj (hp.symm.trans hwhole)
        cases hlast
      | cons part front =>
        obtain ⟨rfl, hrest⟩ := List.cons.inj (hp.symm.trans hwhole)
        exact locate_dirOf_current hcheck hwhole hlast hfront
    · have hhead : (front ++ [last]).head? = some first := by
        rw [← hwhole, hp]
        rfl
      exact locate_dirOf_relative hcheck hwhole hlast (by simpa [hhead] using hf)
        (by simpa [hhead] using hdot) hfront hdir

end DirOf

/-! ## 3. Where a file was written -/

/-- A file is written at the place that its path spells, where no directory stands. -/
theorem replaceFile_inserts {p : Path} {content : Content} {later : FileTree}
    (h : tree.replaceFile p content = .ok later) :
    p.placeFrom tree.cwd ≠ [] ∧ (∀ modified, tree.entryAt? (p.placeFrom tree.cwd) ≠ some (.dir modified)) ∧
      later = tree.insertAt (p.placeFrom tree.cwd) (.file content tree.now) := by
  unfold replaceFile at h
  cases htarget : tree.target p with
  | error error =>
    rw [htarget] at h
    cases h
  | ok found =>
    obtain ⟨dir, last, slash⟩ := found
    rw [htarget] at h
    simp only [bind, Except.bind] at h
    split at h
    · cases h
    rename_i hname
    split at h
    · cases h
    split at h
    · cases h
    rename_i hslash
    obtain rfl : slash = false := by simpa using hslash
    obtain ⟨_, front, hparts, hfront, _⟩ := target_spec htarget
    have hplace : p.placeFrom tree.cwd = dir ++ [String.ofList last] := by
      rw [placeFrom_origin, hparts, List.foldl_append, ← place_of_descend hfront]
      exact Path.follow_name dir (by simpa using hname)
    rw [hplace]
    split at h
    · cases h
    · rename_i hfree
      exact ⟨by simp, fun modified he => hfree modified he, (Except.ok.inj h).symm⟩

section Inserted

variable {start : Location} {content : Content} {modified : Int}

theorem isDirAt_insertAt (hplace : place ≠ [])
    (h : (tree.insertAt place (.file content modified)).isDirAt there = true) :
    tree.isDirAt there = true ∧ there ≠ place := by
  unfold isDirAt at h ⊢
  rw [entryAt?_insertAt hplace] at h
  split at h
  · rename_i he
    split at he
    · cases he
    · rw [he]
      exact ⟨rfl, fun e => ‹¬ place = there› e.symm⟩
  · cases h

/-- A part that leads elsewhere led there before the file was written. -/
theorem enter_insertAt (hplace : place ≠ []) {part : List Char}
    (h : (tree.insertAt place (.file content modified)).enter start part = .ok there) (hne : there ≠ place) :
    tree.enter start part = .ok there := by
  unfold enter at h ⊢
  split at h
  · cases h
  rename_i hdir
  rw [(isDirAt_insertAt hplace (by simpa using hdir)).1, if_neg (by simp)]
  split
  · rwa [if_pos ‹_›] at h
  rw [if_neg ‹_›] at h
  split
  · rwa [if_pos ‹_›] at h
  rw [if_neg ‹_›] at h
  dsimp only at h ⊢
  split
  · rwa [if_pos ‹_›] at h
  rw [if_neg ‹_›] at h
  rw [entryAt?_insertAt hplace] at h
  by_cases hname : place = start ++ [String.ofList part]
  · rw [if_pos hname] at h
    exact absurd ((Except.ok.inj h).symm.trans hname.symm) hne
  · rwa [if_neg hname] at h

/-- **Parts that lead elsewhere led there before the file was written**: nothing leads through a file. -/
theorem descend_insertAt (hplace : place ≠ []) {parts : List (List Char)}
    (h : (tree.insertAt place (.file content modified)).descend start parts = .ok there) (hne : there ≠ place) :
    tree.descend start parts = .ok there := by
  induction parts generalizing start with
  | nil => exact h
  | cons part parts ih =>
    obtain ⟨next, hnext, hrest⟩ := descend_cons_eq_ok.mp h
    have hthrough : next ≠ place := by
      rintro rfl
      cases parts with
      | nil => exact hne (Except.ok.inj hrest).symm
      | cons more parts =>
        obtain ⟨_, hmore, _⟩ := descend_cons_eq_ok.mp hrest
        exact (isDirAt_insertAt hplace (isDirAt_of_enter hmore)).2 rfl
    exact descend_cons_eq_ok.mpr ⟨next, enter_insertAt hplace hnext hthrough, ih hrest⟩

/-- **A path that spells another place leads to what it led to**, if it leads there at all. -/
theorem stat_insertAt (hplace : place ≠ []) (hfree : ∀ time, tree.entryAt? place ≠ some (.dir time))
    (content : Content) (modified : Int) {p : Path} (hne : p.placeFrom tree.cwd ≠ place) (entry : Entry) :
    (tree.insertAt place (.file content modified)).stat p = .ok entry ↔ tree.stat p = .ok entry := by
  have hchanged := changed_file hplace hfree content modified
  rw [stat_eq_ok, stat_eq_ok]
  have hentry {there : Location} (h : there = p.placeFrom tree.cwd) :
      (tree.insertAt place (.file content modified)).entryAt? there = tree.entryAt? there := by
    rw [entryAt?_insertAt hplace, if_neg]
    rintro rfl
    exact hne h.symm
  constructor
  · rintro ⟨there, hthere, he⟩
    have hspelled := place_of_locate hthere
    obtain ⟨hcheck, hd⟩ := locate_eq_ok.mp hthere
    refine ⟨there, locate_eq_ok.mpr ⟨hcheck, descend_insertAt hplace hd ?_⟩, ?_⟩
    · rw [hspelled]
      exact hne
    · rwa [hentry hspelled] at he
  · rintro ⟨there, hthere, he⟩
    refine ⟨there, hchanged.locate hthere, ?_⟩
    rwa [hentry (place_of_locate hthere)]

/-- **In a directory that is there nothing else changes**, not even why a path leads nowhere. -/
theorem stat_insertAt_of_dir (hplace : place ≠ []) (hfree : ∀ time, tree.entryAt? place ≠ some (.dir time))
    (content : Content) (modified : Int) {p : Path} {front : List (List Char)} {last : List Char}
    (hparts : (tree.origin p).2 = front ++ [last])
    (hfront : tree.descend (tree.origin p).1 front = .ok there) (hdir : tree.isDirAt there = true)
    (hlast : isNamePart last = true) (hne : p.placeFrom tree.cwd ≠ place) :
    (tree.insertAt place (.file content modified)).stat p = tree.stat p := by
  have hchanged := changed_file hplace hfree content modified
  have hname : p.placeFrom tree.cwd = there ++ [String.ofList last] := by
    rw [placeFrom_origin, hparts, List.foldl_append, ← place_of_descend hfront]
    exact Path.follow_name there hlast
  have hentry : (tree.insertAt place (.file content modified)).entryAt? (there ++ [String.ofList last]) =
      tree.entryAt? (there ++ [String.ofList last]) := by
    rw [entryAt?_insertAt hplace, if_neg]
    rintro rfl
    exact hne hname
  have henter : (tree.insertAt place (.file content modified)).enter there last = tree.enter there last := by
    unfold enter
    rw [hdir, hchanged.isDirAt hdir]
    dsimp only
    rw [hentry]
  have hlocate : (tree.insertAt place (.file content modified)).locate p = tree.locate p := by
    unfold locate
    rw [hchanged.origin p]
    cases checkSpelling p with
    | error error => rfl
    | ok =>
      show descend _ (tree.origin p).1 (tree.origin p).2 = tree.descend (tree.origin p).1 (tree.origin p).2
      rw [hparts, descend_append, descend_append, hfront, hchanged.descend hfront]
      show descend _ there [last] = tree.descend there [last]
      rw [descend_cons, descend_cons, henter]
      rfl
  unfold stat
  rw [hlocate]
  cases hleads : tree.locate p with
  | error error => rfl
  | ok found =>
    obtain rfl := (place_of_locate hleads).trans hname
    dsimp only [bind, Except.bind]
    rw [hentry]

end Inserted

end FileTree

end Stache
