import Stache.Proofs.Files.Enclosing
import Stache.Proofs.Files.Normalized

/-!
# What normal forms lead to

A path in normal form leads to the file that the path leads to. The other way round that does not hold: the
system looks for every directory that the path goes through, also for those that a `..` leaves again.

* `Path.trail`, `Path.parts_normalize` -- the parts that a stack is spelled with;
* `Path.trail_sublist` -- they are some of those of the path, so the normal form is no longer;
* `FileTree.descend_stack` -- **whoever follows the parts of a path may follow the trail of its stack instead**;
* `FileTree.stat_normalize` -- **the normal form leads to the same file**.
-/

namespace Stache

namespace Path

/-! ## 1. Trails -/

/-- The parts that a stack is spelled with, behind the root. -/
def trail (held : List Component) : List (List Char) :=
  (held.filter (· ≠ .root)).reverse.map (·.text.toList)

theorem trail_cons {c : Component} (hc : c ≠ .root) (below : List Component) :
    trail (c :: below) = trail below ++ [c.text.toList] := by
  unfold trail
  rw [List.filter_cons_of_pos (by simpa using hc), List.reverse_cons, List.map_append]
  rfl

/-- The part that a component is read from is its text. -/
theorem text_of_ofPart? {part : List Char} {c : Component} (h : Component.ofPart? part = some c) :
    c.text.toList = part ∧ c ≠ .root := by
  unfold Component.ofPart? at h
  split at h
  · cases h
  split at h
  · cases h
    exact ⟨‹part = ['.', '.']›.symm, nofun⟩
  · cases h
    exact ⟨String.toList_ofList, nofun⟩

theorem Component.IsPart.ne_root {c : Component} (hc : c.IsPart) : c ≠ .root := by
  rintro rfl
  cases hc.read

theorem Component.IsPart.text_ne_nil {c : Component} (hc : c.IsPart) : c.text.toList ≠ [] := by
  intro hempty
  have hread := hc.read
  rw [hempty] at hread
  cases hread

theorem Component.IsPart.isNamePart {name : String} (hc : (Component.normal name).IsPart) :
    FileTree.isNamePart name.toList = true := by
  have hread : Component.ofPart? name.toList = some (.normal name) := hc.read
  unfold FileTree.isNamePart
  rw [Bool.and_eq_true, Bool.not_eq_true', bne_iff_ne]
  refine ⟨Bool.eq_false_iff.mpr fun hempty => ?_, fun hup => ?_⟩
  · rw [ofPart?_of_isEmptyPart hempty] at hread
    cases hread
  · rw [hup] at hread
    cases hread

/-- A part that is joined to a path without a separator at its end stands behind its parts. -/
theorem parts_join_part {p : Path} {front : List (List Char)} {last : List Char} (hp : p.parts = front ++ [last])
    (hlast : last ≠ []) {c : Component} (hc : c.IsPart) :
    (p.join ⟨c.text⟩).parts = p.parts ++ [c.text.toList] := by
  obtain ⟨_, before, hjoin, hparts⟩ := p.parts_join (isAbsolute_name hc.slash)
  rw [parts_name hc.slash] at hjoin
  rcases hparts with hparts | hparts
  · rw [hjoin, hparts]
  · rw [hp] at hparts
    exact absurd (List.singleton_injective (List.append_inj_right' hparts rfl)) hlast

/-- A part at the beginning, or behind the root. -/
theorem parts_first {c : Component} (hc : c.IsPart) :
    (ofComponents [c]).parts = [c.text.toList] ∧
      (ofComponents [.root, c]).parts = [[], c.text.toList] := by
  have hone (start : String) (hstart : start.toList = [] ∨ start.toList.getLast? = some '/') :
      join ⟨start⟩ ⟨c.text⟩ = ⟨start ++ c.text⟩ := by
    unfold join
    rw [isAbsolute_name hc.slash, if_neg Bool.false_ne_true]
    exact if_pos hstart
  constructor
  · show (join ⟨""⟩ ⟨c.text⟩).parts = _
    rw [hone "" (.inl rfl), String.empty_append, parts_name hc.slash]
  · show (join ⟨"/"⟩ ⟨c.text⟩).parts = _
    rw [hone "/" (.inr rfl), parts, String.toList_append]
    refine (splitOn_append_slash [] c.text.toList).trans ?_
    exact congrArg ([] :: ·) (parts_name hc.slash)

/-- One more part behind others. -/
theorem parts_concat {held : List Component} {last c : Component} {lead : List (List Char)} (hlast : last.IsPart)
    (hc : c.IsPart)
    (hparts : (ofComponents (held.reverse ++ [last])).parts = lead ++ (trail held ++ [last.text.toList])) :
    (ofComponents ((last :: held).reverse ++ [c])).parts =
      lead ++ (trail (last :: held) ++ [c.text.toList]) := by
  rw [List.reverse_cons, ofComponents_concat,
    parts_join_part (hparts.trans (List.append_assoc ..).symm) hlast.text_ne_nil hc, hparts,
    trail_cons hlast.ne_root, List.append_assoc]

namespace Standing

variable {isRooted : Bool} {held : List Component}

/-- **What a stack is spelled with**, if there is more than the root. -/
theorem parts_ofComponents (h : Standing isRooted held) {c : Component} (hc : c.IsPart) :
    (ofComponents (held.reverse ++ [c])).parts =
      (if isRooted then [[]] else []) ++ (trail held ++ [c.text.toList]) := by
  induction h generalizing c with
  | root => exact (parts_first hc).2
  | up n =>
    induction n generalizing c with
    | zero => exact (parts_first hc).1
    | succ n ih => exact parts_concat isPart_parent hc (ih isPart_parent)
  | name hname _ ih => exact parts_concat hname hc (ih hname)

/-- Its parts are not empty. -/
theorem ne_nil_of_mem_trail (h : Standing isRooted held) {part : List Char} (hm : part ∈ trail held) :
    part ≠ [] := by
  have hall : ∀ c ∈ held, c ≠ .root → c.IsPart := by
    clear hm
    induction h with
    | root => exact fun c hc hne => absurd (List.mem_singleton.mp hc) hne
    | up n => exact fun c hc _ => (List.eq_of_mem_replicate hc).symm ▸ isPart_parent
    | name hname _ ih => exact List.forall_mem_cons.mpr ⟨fun _ => hname, ih⟩
  obtain ⟨c, hc, rfl⟩ := List.mem_map.mp hm
  obtain ⟨hc, hne⟩ := List.mem_filter.mp (List.mem_reverse.mp hc)
  exact (hall c hc (by simpa using hne)).text_ne_nil

/-- Its last part stands upon a stack. -/
theorem exists_last (h : Standing isRooted held) (hne : trail held ≠ []) :
    ∃ c below, held = c :: below ∧ c.IsPart ∧ Standing isRooted below := by
  cases h with
  | root => exact absurd rfl hne
  | up n =>
    cases n with
    | zero => exact absurd rfl hne
    | succ n => exact ⟨_, _, List.replicate_succ, isPart_parent, .up n⟩
  | name hname hbelow => exact ⟨_, _, rfl, hname, hbelow⟩

end Standing

/-- **The parts of a normal form.** -/
theorem parts_normalize {p : Path} (hne : trail p.stack ≠ []) :
    p.normalize.parts = (if p.isAbsolute then [[]] else []) ++ trail p.stack := by
  obtain ⟨c, below, hstack, hc, hbelow⟩ := p.standing_stack.exists_last hne
  show (ofComponents p.stack.reverse).parts = _
  rw [hstack, List.reverse_cons, hbelow.parts_ofComponents hc, trail_cons hc.ne_root]

/-- One component more is one part more at most. -/
theorem trail_pushComponent (held : List Component) {c : Component} (hc : c ≠ .root) :
    (trail (pushComponent held c)).Sublist (trail held ++ [c.text.toList]) := by
  have htop {c : Component} (hc : c ≠ .root) (held : List Component) :
      (trail (c :: held)).Sublist (trail held ++ [c.text.toList]) := by
    rw [trail_cons hc]
  cases c with
  | root => exact absurd rfl hc
  | current => exact List.sublist_append_left _ _
  | normal name => exact htop hc held
  | parent =>
    rcases held with _ | ⟨_ | _ | _ | name, below⟩
    · exact htop hc []
    · exact List.sublist_append_left _ _
    · exact htop hc _
    · exact htop hc _
    · have hname : Component.normal name ≠ .root := nofun
      rw [trail_cons hname, List.append_assoc]
      exact List.sublist_append_left _ _

/-- **A trail is made of parts of the path.** -/
theorem trail_sublist (parts : List (List Char)) (held : List Component) :
    (trail ((counted parts).foldl pushComponent held)).Sublist (trail held ++ parts) := by
  induction parts generalizing held with
  | nil => exact List.sublist_append_left _ _
  | cons part parts ih =>
    cases hread : Component.ofPart? part with
    | none =>
      have hskip : counted (part :: parts) = counted parts := List.filterMap_cons_none hread
      rw [hskip]
      exact (ih held).trans ((List.Sublist.refl _).append (List.sublist_cons_self ..))
    | some c =>
      have htake : counted (part :: parts) = c :: counted parts := List.filterMap_cons_some hread
      obtain ⟨htext, hroot⟩ := text_of_ofPart? hread
      have hpush := trail_pushComponent held hroot
      rw [htext] at hpush
      rw [htake, List.foldl_cons, List.append_cons]
      exact (ih _).trans (hpush.append (List.Sublist.refl parts))

end Path

/-! ## 2. Following a trail -/

namespace FileTree

variable {tree : FileTree} {start place there : Location} {isRooted : Bool} {held : List Path.Component}

/-- One part behind others. -/
theorem descend_concat {front : List (List Char)} (hfront : tree.descend start front = .ok place)
    (part : List Char) : tree.descend start (front ++ [part]) = tree.enter place part := by
  rw [descend_append, hfront]
  show tree.descend place [part] = _
  rw [descend_cons]
  cases tree.enter place part <;> rfl

/-- **One step along a path is one step along the trail.** A `..` that takes a name away goes back to where the
    trail was before. -/
theorem descend_pushComponent (hs : Path.Standing isRooted held) (hroot : isRooted = true → start = [])
    (hheld : tree.descend start (Path.trail held) = .ok place) {c : Path.Component} (hc : c.IsPart)
    (hnext : tree.enter place c.text.toList = .ok there) :
    tree.descend start (Path.trail (Path.pushComponent held c)) = .ok there := by
  have htop : tree.descend start (Path.trail (c :: held)) = .ok there := by
    rw [Path.trail_cons hc.ne_root, descend_concat hheld, hnext]
  cases c with
  | root => exact absurd rfl hc.ne_root
  | current => cases hc.read
  | normal name => exact htop
  | parent =>
    have hup : there = place.dropLast := place_of_enter hnext
    cases hs with
    | root =>
      obtain rfl : start = place := Except.ok.inj hheld
      rw [hup, hroot rfl]
      rfl
    | up n =>
      cases n with
      | zero => exact htop
      | succ n => exact htop
    | @name _ below name hname hbelow =>
      rw [Path.trail_cons hname.ne_root] at hheld
      obtain ⟨between, hfront, hlast⟩ := descend_append_eq_ok.mp hheld
      have hplace : place = Path.follow between name.toList := place_of_descend hlast
      rw [hup, hplace, Path.follow_name _ hname.isNamePart, List.dropLast_concat]
      exact hfront

/-- **Whoever follows the parts of a path may follow the trail of its stack instead.** -/
theorem descend_stack (hs : Path.Standing isRooted held) (hroot : isRooted = true → start = [])
    (hheld : tree.descend start (Path.trail held) = .ok place) {parts : List (List Char)}
    (hparts : ∀ part ∈ parts, '/' ∉ part) (hd : tree.descend place parts = .ok there) :
    tree.descend start (Path.trail ((Path.counted parts).foldl Path.pushComponent held)) = .ok there := by
  induction parts generalizing held place with
  | nil => exact hheld.trans hd
  | cons part parts ih =>
    obtain ⟨hpart, hrest⟩ := List.forall_mem_cons.mp hparts
    obtain ⟨next, hnext, hleads⟩ := descend_cons_eq_ok.mp hd
    by_cases hempty : Path.isEmptyPart part = true
    · have hskip : Path.counted (part :: parts) = Path.counted parts :=
        List.filterMap_cons_none (Path.ofPart?_of_isEmptyPart hempty)
      have hstay : next = place := (place_of_enter hnext).trans (if_pos hempty)
      rw [hskip]
      exact ih hs (hstay ▸ hheld) hrest hleads
    · obtain ⟨c, hread⟩ := Path.exists_ofPart? hempty
      have htake : Path.counted (part :: parts) = c :: Path.counted parts := List.filterMap_cons_some hread
      obtain ⟨rfl, _⟩ := Path.text_of_ofPart? hread
      have hc : c.IsPart := ⟨hread, hpart⟩
      rw [htake, List.foldl_cons]
      exact ih (hs.push hc) (descend_pushComponent hs hroot hheld hc hnext) hrest hleads

/-- The trail leads to a file, so there is one. -/
theorem trail_ne_nil {parts : List (List Char)} {entry : Entry} (hparts : parts ≠ [] ∨ start = [])
    (hd : tree.descend start parts = .ok place) (hfile : tree.entryAt? place = some entry)
    (hkind : entry.isFile = true) {trail : List (List Char)} (htrail : tree.descend start trail = .ok place) :
    trail ≠ [] := by
  rintro rfl
  obtain rfl : start = place := Except.ok.inj htrail
  have hdir : tree.isDirAt start = true := by
    rcases hparts with hparts | rfl
    · obtain ⟨part, rest, rfl⟩ := List.exists_cons_of_ne_nil hparts
      obtain ⟨next, hnext, _⟩ := descend_cons_eq_ok.mp hd
      exact isDirAt_of_enter hnext
    · rfl
  unfold isDirAt at hdir
  rw [hfile] at hdir
  cases entry with
  | file => cases hdir
  | dir => cases hkind

/-- **The normal form of a path leads to the same file.** -/
theorem stat_normalize {p : Path} {entry : Entry} (h : tree.stat p = .ok entry) (hfile : entry.isFile = true) :
    tree.stat p.normalize = .ok entry := by
  obtain ⟨place, hplace, hentry⟩ := stat_eq_ok.mp h
  obtain ⟨hcheck, hd⟩ := locate_eq_ok.mp hplace
  refine stat_eq_ok.mpr ⟨place, ?_, hentry⟩
  have hslash : ∀ part ∈ p.parts, '/' ∉ part := fun part => Path.not_mem_part
  have hstanding := p.standing_stack
  have hstack := p.stack_eq
  have hnormal : p.normalize = ⟨Path.joinParts p.normalize.parts⟩ := by rw [Path.joinParts_parts]
  unfold origin at hd
  cases habsolute : p.isAbsolute with
  | true =>
    obtain ⟨rest, hparts⟩ := Path.parts_of_isAbsolute habsolute
    rw [habsolute, hparts] at hd
    have hrooted : p.stack = (Path.counted rest).foldl Path.pushComponent [.root] := by
      rw [hstack, habsolute, hparts]
      rfl
    have hrest : ∀ part ∈ rest, '/' ∉ part := fun part hm =>
      hslash part (by rw [hparts]; exact List.mem_cons_of_mem _ hm)
    have hleads : tree.descend [] (Path.trail p.stack) = .ok place := by
      rw [hrooted]
      exact descend_stack .root (fun _ => rfl) rfl hrest hd
    have hne := trail_ne_nil (.inr rfl) hd hentry hfile hleads
    rw [hnormal, Path.parts_normalize hne, habsolute]
    refine (@locate_joinParts _ _ _ [] _ hcheck ?_ (.inr hne) hleads).2
    rw [hparts, hrooted]
    exact (Path.trail_sublist rest [.root]).cons_cons []
  | false =>
    rw [habsolute] at hd hstack
    have hleads : tree.descend tree.cwd (Path.trail p.stack) = .ok place := by
      rw [hstack]
      exact descend_stack (.up 0) nofun rfl hslash hd
    have hne := trail_ne_nil (.inl (List.splitOn_ne_nil _ _)) hd hentry hfile hleads
    rw [hnormal, Path.parts_normalize hne, habsolute]
    have hsub : (Path.trail p.stack).Sublist p.parts := by
      rw [hstack]
      exact Path.trail_sublist p.parts []
    obtain ⟨first, rest, htrail⟩ := List.exists_cons_of_ne_nil hne
    have hfirst : first ≠ [] := hstanding.ne_nil_of_mem_trail (htrail ▸ List.mem_cons_self)
    rw [htrail] at hleads hsub ⊢
    exact (locate_joinParts hcheck hsub (.inl hfirst) (by rwa [if_neg hfirst])).2

theorem hasFile_iff {p : Path} :
    tree.hasFile p = true ↔ ∃ entry, tree.stat p = .ok entry ∧ entry.isFile = true := by
  unfold hasFile
  cases tree.stat p with
  | error error => simp
  | ok entry => simp

theorem hasFile_normalize {p : Path} (h : tree.hasFile p = true) : tree.hasFile p.normalize = true := by
  obtain ⟨entry, hentry, hfile⟩ := hasFile_iff.mp h
  exact hasFile_iff.mpr ⟨entry, stat_normalize hentry hfile, hfile⟩

end FileTree

end Stache
