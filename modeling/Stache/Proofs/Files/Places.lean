import Stache.Proofs.Files.Changed

/-!
# Places

Where a path leads is told by its spelling and the working directory alone: there are no links. What the
files are decides only whether it leads there.

* `Path.placeFrom` -- the place that a path spells;
* `Path.placeFrom_join` -- a name is spelled in the directory that it is joined to;
* `FileTree.place_of_locate` -- **a path leads to the place that it spells**, or nowhere; so what is written and
  what is asked for stands there (`Wrote.place_eq`, `entryAt?_of_stat`).
-/

namespace Stache

namespace Path

/-! ## 1. Spellings -/

/-- One part further: nothing and `.` stay, `..` goes up, a name goes down. -/
def follow (place : Location) (part : List Char) : Location :=
  if isEmptyPart part then place
  else if part = ['.', '.'] then place.dropLast
  else place ++ [String.ofList part]

/-- The place that a path spells. -/
def placeFrom (cwd : Location) (p : Path) : Location :=
  p.parts.foldl follow (if p.isAbsolute then [] else cwd)

theorem follow_name (place : Location) {part : List Char} (h : FileTree.isNamePart part = true) :
    follow place part = place ++ [String.ofList part] := by
  unfold FileTree.isNamePart at h
  simp only [Bool.and_eq_true, Bool.not_eq_true', bne_iff_ne] at h
  unfold follow
  rw [h.1, if_neg Bool.false_ne_true, if_neg h.2]

/-- What is longer than the two dots is a name. -/
theorem isNamePart_of_length {part : List Char} (h : 2 < part.length) : FileTree.isNamePart part = true := by
  have hne {other : List Char} (ho : other.length ≤ 2) : part ≠ other := by
    rintro rfl
    exact absurd h (Nat.not_lt.mpr ho)
  unfold FileTree.isNamePart isEmptyPart
  simp only [Bool.and_eq_true, Bool.not_eq_true', Bool.or_eq_false_iff, beq_eq_false_iff_ne, bne_iff_ne]
  exact ⟨⟨hne (by decide), hne (by decide)⟩, hne (by decide)⟩

/-- Before the first separator of an absolute path there is nothing. -/
theorem parts_of_isAbsolute {p : Path} (h : p.isAbsolute = true) : ∃ rest, p.parts = [] :: rest := by
  unfold isAbsolute at h
  unfold parts
  cases htext : p.text.toList with
  | nil =>
    rw [htext] at h
    cases h
  | cons c rest =>
    rw [htext] at h
    obtain rfl : c = '/' := Option.some.inj (beq_iff_eq.mp h)
    rw [List.splitOn_eq_splitOnP]
    exact ⟨_, List.splitOnP_append_cons [] rest rfl⟩

/-! ## 2. Names of files -/

/-- No part between separators has one. -/
theorem not_mem_part {text part : List Char} (h : part ∈ text.splitOn '/') : '/' ∉ part := by
  induction text generalizing part with
  | nil =>
    rw [List.splitOn_nil, List.mem_singleton] at h
    rw [h]
    exact List.not_mem_nil
  | cons c text ih =>
    rw [List.splitOn_cons_eq_if_modifyHead] at h
    split at h
    · rcases List.mem_cons.mp h with rfl | h
      · exact List.not_mem_nil
      · exact ih h
    · rename_i hc
      cases hparts : text.splitOn '/' with
      | nil => exact absurd hparts (List.splitOn_ne_nil _ _)
      | cons head tail =>
        rw [hparts] at h ih
        rcases List.mem_cons.mp h with rfl | h
        · intro hm
          rcases List.mem_cons.mp hm with rfl | hm
          · exact hc rfl
          · exact ih List.mem_cons_self hm
        · exact ih (List.mem_cons_of_mem head h)

/-- So the name of a file has none. -/
theorem not_mem_fileName {p : Path} {name : String} (h : p.fileName? = some name) : '/' ∉ name.toList := by
  have hcomponent : Component.normal name ∈ p.components := by
    unfold fileName? at h
    split at h
    · rename_i hlast
      cases h
      exact List.mem_of_getLast? hlast
    · cases h
  have hbody : Component.normal name ∈ p.parts.filterMap Component.ofPart? := by
    unfold components at hcomponent
    dsimp only at hcomponent
    split at hcomponent
    · exact (List.mem_cons.mp hcomponent).resolve_left nofun
    split at hcomponent
    · exact (List.mem_cons.mp hcomponent).resolve_left nofun
    · exact hcomponent
  obtain ⟨part, hpart, hname⟩ := List.mem_filterMap.mp hbody
  unfold Component.ofPart? at hname
  split at hname
  · cases hname
  split at hname
  · cases hname
  · cases hname
    rw [String.toList_ofList]
    exact not_mem_part hpart

/-- Neither has its stem. -/
theorem not_mem_fileStem {p : Path} {stem : String} (h : p.fileStem? = some stem) : '/' ∉ stem.toList := by
  obtain ⟨name, hname, hstem⟩ := Option.map_eq_some_iff.mp h
  have hslash := not_mem_fileName hname
  split at hstem
  · rename_i hcut
    rw [Text.append_of_cutLast? hcut] at hslash
    rw [← hstem, String.toList_ofList]
    exact fun hm => hslash (List.mem_append_left _ hm)
  · rwa [← hstem]

/-! ## 3. Names in a directory -/

section Name

variable {name : String}

theorem isAbsolute_name (hname : '/' ∉ name.toList) : isAbsolute ⟨name⟩ = false := by
  unfold isAbsolute
  cases htext : name.toList with
  | nil => rfl
  | cons c rest =>
    rw [htext] at hname
    have hc : c ≠ '/' := fun e => hname (e ▸ List.mem_cons_self)
    simpa using hc

/-- A path that stays in front of another text is absolute if it was. -/
theorem isAbsolute_append {p : Path} (hp : p.text.toList ≠ []) (text : String) :
    isAbsolute ⟨p.text ++ text⟩ = p.isAbsolute := by
  unfold isAbsolute
  rw [String.toList_append]
  cases htext : p.text.toList with
  | nil => exact absurd htext hp
  | cons c rest => rfl

end Name

/-- A separator stands between parts. -/
theorem splitOn_append_slash (front text : List Char) :
    (front ++ '/' :: text).splitOn '/' = front.splitOn '/' ++ text.splitOn '/' := by
  simp only [List.splitOn_eq_splitOnP]
  exact List.splitOnP_append_cons front text rfl

/-- **The parts of a relative path stand behind those of the path that it is joined to**, up to a separator
    at its end. -/
theorem parts_join (p : Path) {q : Path} (hq : q.isAbsolute = false) :
    (p.join q).isAbsolute = p.isAbsolute ∧ ∃ front,
      (p.join q).parts = front ++ q.parts ∧ (p.parts = front ∨ p.parts = front ++ [[]]) := by
  unfold join
  rw [hq, if_neg Bool.false_ne_true]
  dsimp only
  split
  · rename_i hstart
    by_cases hnil : p.text.toList = []
    · obtain ⟨text⟩ := p
      obtain rfl : text = "" := String.toList_eq_nil_iff.mp hnil
      rw [String.empty_append]
      exact ⟨hq, [], rfl, .inr (List.splitOn_nil ..)⟩
    · obtain ⟨front, hfront⟩ := List.getLast?_eq_some_iff.mp (hstart.resolve_left hnil)
      refine ⟨isAbsolute_append hnil q.text, front.splitOn '/', ?_, .inr ?_⟩
      · unfold parts
        rw [String.toList_append, hfront, List.append_assoc]
        exact splitOn_append_slash front q.text.toList
      · unfold parts
        rw [hfront]
        exact splitOn_append_slash front []
  · rename_i hstart
    refine ⟨?_, p.parts, ?_, .inl rfl⟩
    · rw [String.append_assoc]
      exact isAbsolute_append (fun e => hstart (.inl e)) _
    · unfold parts
      rw [String.toList_append, String.toList_append, List.append_assoc]
      exact splitOn_append_slash _ _

section Name

variable {name : String}

/-- A name without separators is one part. -/
theorem parts_name (hname : '/' ∉ name.toList) : parts ⟨name⟩ = [name.toList] := by
  unfold parts
  rw [List.splitOn_eq_splitOnP, List.splitOnP_eq_singleton]
  intro c hc
  rw [beq_eq_false_iff_ne]
  rintro rfl
  exact hname hc

/-- **A name is spelled in the directory** that it is joined to. -/
theorem placeFrom_join (p : Path) (hname : '/' ∉ name.toList)
    (hpart : FileTree.isNamePart name.toList = true) (cwd : Location) :
    (p.join ⟨name⟩).placeFrom cwd = p.placeFrom cwd ++ [name] := by
  obtain ⟨habsolute, front, hjoin, hparts⟩ := p.parts_join (isAbsolute_name hname)
  rw [parts_name hname] at hjoin
  have hfront : p.placeFrom cwd = front.foldl follow (if p.isAbsolute then [] else cwd) := by
    unfold placeFrom
    rcases hparts with hparts | hparts
    · rw [hparts]
    · rw [hparts, List.foldl_append]
      rfl
  rw [hfront, placeFrom, habsolute, hjoin, List.foldl_append]
  show follow _ name.toList = _
  rw [follow_name _ hpart, String.ofList_toList]

end Name

end Path

/-! ## 4. Where paths lead -/

namespace FileTree

variable {tree : FileTree} {place there : Location}

theorem place_of_enter {part : List Char} (h : tree.enter place part = .ok there) :
    there = Path.follow place part := by
  unfold enter at h
  unfold Path.follow
  split at h
  · cases h
  split at h
  · cases h
    rw [if_pos ‹_›]
  rw [if_neg ‹_›]
  split at h
  · cases h
    rw [if_pos ‹_›]
  rw [if_neg ‹_›]
  dsimp only at h
  split at h
  · cases h
  split at h
  · cases h
  · cases h
    rfl

theorem place_of_descend {parts : List (List Char)} (h : tree.descend place parts = .ok there) :
    there = parts.foldl Path.follow place := by
  induction parts generalizing place with
  | nil =>
    cases h
    rfl
  | cons part parts ih =>
    obtain ⟨next, hnext, hrest⟩ := descend_cons_eq_ok.mp h
    obtain rfl := place_of_enter hnext
    exact ih hrest

/-- The place that a path spells, by the parts from where it starts. -/
theorem placeFrom_origin (tree : FileTree) (p : Path) :
    p.placeFrom tree.cwd = (tree.origin p).2.foldl Path.follow (tree.origin p).1 := by
  unfold origin Path.placeFrom
  split
  · obtain ⟨rest, hparts⟩ := Path.parts_of_isAbsolute ‹_›
    rw [hparts]
    rfl
  · rfl

/-- **A path leads to the place that it spells**, or nowhere. -/
theorem place_of_locate {p : Path} (h : tree.locate p = .ok place) : place = p.placeFrom tree.cwd := by
  obtain ⟨_, hd⟩ := locate_eq_ok.mp h
  rw [place_of_descend hd, placeFrom_origin]

/-- A file that is written stands at the place that its path spells. -/
theorem Wrote.place_eq {p : Path} {content : Content} {later : FileTree} (h : Wrote p content tree place later) :
    place = p.placeFrom tree.cwd := by
  rw [place_of_locate h.locate, h.changed.cwd]

/-- What a path leads to stands at this place. -/
theorem entryAt?_of_stat {p : Path} {entry : Entry} (h : tree.stat p = .ok entry) :
    tree.entryAt? (p.placeFrom tree.cwd) = some entry := by
  obtain ⟨there, hthere, hentry⟩ := stat_eq_ok.mp h
  rwa [place_of_locate hthere] at hentry

end FileTree

end Stache
