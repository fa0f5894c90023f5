import Mathlib.Data.List.DropRight
import Stache.Proofs.Files.Places

/-!
# Ancestors

The path above a path has all of its components but the last. So the way up ends, and the ancestors of a
path are all that stands on it, the nearest first.

* `Path.components_of_parent?` -- **a path is the one above it and one more component**;
* `Path.Ancestor` -- the path that so many steps lead up to;
* `Path.getElem?_ancestors` -- **the ancestors are what the steps lead to**, none left out.
-/

namespace Stache

namespace Path

/-! ## 1. Parts that count -/

/-- The components that some parts stand for. -/
def counted (parts : List (List Char)) : List Component :=
  parts.filterMap Component.ofPart?

theorem ofPart?_of_isEmptyPart {part : List Char} (h : isEmptyPart part = true) :
    Component.ofPart? part = none := by
  unfold isEmptyPart at h
  simp only [Bool.or_eq_true, beq_iff_eq] at h
  exact if_pos h

theorem exists_ofPart? {part : List Char} (h : ¬ isEmptyPart part = true) :
    ∃ component, Component.ofPart? part = some component := by
  unfold isEmptyPart at h
  simp only [Bool.or_eq_true, beq_iff_eq] at h
  unfold Component.ofPart?
  rw [if_neg h]
  split
  · exact ⟨_, rfl⟩
  · exact ⟨_, rfl⟩

theorem counted_append (front back : List (List Char)) :
    counted (front ++ back) = counted front ++ counted back :=
  List.filterMap_append

/-- What is taken off at the end does not count. -/
theorem counted_trimParts (parts : List (List Char)) : counted (trimParts parts) = counted parts := by
  have htrailing : counted (parts.rtakeWhile isEmptyPart) = [] :=
    List.filterMap_eq_nil_iff.mpr fun _ hm => ofPart?_of_isEmptyPart (List.mem_rtakeWhile_imp hm)
  calc counted (trimParts parts)
      = counted (parts.rdropWhile isEmptyPart) ++ counted (parts.rtakeWhile isEmptyPart) := by
        rw [htrailing, List.append_nil]
        rfl
    _ = counted parts := by rw [← counted_append, List.rdropWhile_append_rtakeWhile]

/-- What stays ends with a part that counts. -/
theorem exists_last_counted {parts : List (List Char)} (h : trimParts parts ≠ []) :
    ∃ last, counted parts = counted (trimParts parts).dropLast ++ [last] := by
  obtain ⟨last, hlast⟩ := exists_ofPart? (List.rdropWhile_last_not isEmptyPart parts h)
  have hcounted : counted [(trimParts parts).getLast h] = [last] := List.filterMap_cons_some hlast
  refine ⟨last, ?_⟩
  rw [← counted_trimParts, ← hcounted, ← counted_append, List.dropLast_append_getLast]

/-! ## 2. Components by parts -/

/-- Parts that are joined are the parts of what they make. -/
theorem parts_joinParts {parts : List (List Char)} (h : ∀ part ∈ parts, '/' ∉ part) (hne : parts ≠ []) :
    Path.parts ⟨joinParts parts⟩ = parts := by
  unfold Path.parts joinParts
  rw [String.toList_ofList]
  exact List.splitOn_intercalate '/' h hne

theorem joinParts_parts (p : Path) : joinParts p.parts = p.text := by
  unfold Path.parts joinParts
  rw [List.intercalate_splitOn, String.ofList_toList]

/-- An absolute path begins with an empty part and has another one. -/
theorem components_absolute {p : Path} {part : List Char} {rest : List (List Char)}
    (h : p.parts = [] :: part :: rest) :
    p.isAbsolute = true ∧ p.components = .root :: counted (part :: rest) := by
  have habsolute : p.isAbsolute = true := by
    unfold isAbsolute
    rw [← joinParts_parts, h]
    simp [joinParts, List.intercalate]
  refine ⟨habsolute, ?_⟩
  unfold components
  rw [if_pos habsolute, h]
  rfl

/-- A path that begins with a part that is not empty is relative. -/
theorem components_relative {p : Path} {first : List Char} {rest : List (List Char)}
    (h : p.parts = first :: rest) (hf : first ≠ []) :
    p.isAbsolute = false ∧ p.components =
      if first = ['.'] then .current :: counted rest else counted (first :: rest) := by
  have habsolute : p.isAbsolute = false := by
    rw [Bool.eq_false_iff]
    intro ha
    obtain ⟨_, hparts⟩ := parts_of_isAbsolute ha
    rw [h] at hparts
    exact hf (List.cons.inj hparts).1
  refine ⟨habsolute, ?_⟩
  unfold components
  rw [habsolute, if_neg Bool.false_ne_true, h, List.head?_cons]
  by_cases hdot : first = ['.']
  · rw [if_pos hdot, hdot]
    rfl
  · rw [if_neg hdot, if_neg (by simpa using hdot)]
    rfl

/-- Apart from the empty path, these are all. -/
theorem parts_cases (p : Path) :
    (∃ part rest, p.parts = [] :: part :: rest) ∨ p = ⟨""⟩ ∨
      ∃ first rest, p.parts = first :: rest ∧ first ≠ [] := by
  cases hparts : p.parts with
  | nil => exact absurd hparts (List.splitOn_ne_nil _ _)
  | cons first rest =>
    by_cases hf : first = []
    · subst hf
      cases rest with
      | nil => exact .inr (.inl (congrArg Path.mk (by rw [← joinParts_parts, hparts]; rfl)))
      | cons part rest => exact .inl ⟨part, rest, rfl⟩
    · exact .inr (.inr ⟨first, rest, rfl, hf⟩)

/-! ## 3. One step up -/

/-- The parts that are left when the last one that counts is taken off. -/
def left (parts : List (List Char)) : List (List Char) :=
  trimParts (trimParts parts).dropLast

theorem left_isPrefix (parts : List (List Char)) : left parts <+: parts := by
  have hwhole : trimParts parts <+: parts := List.rdropWhile_prefix isEmptyPart parts
  have hfront : (trimParts parts).dropLast <+: trimParts parts := List.dropLast_prefix _
  have hleft : left parts <+: (trimParts parts).dropLast := List.rdropWhile_prefix isEmptyPart _
  exact hleft.trans (hfront.trans hwhole)

/-- One component less stays. -/
theorem exists_last_left {parts : List (List Char)} (h : trimParts parts ≠ []) :
    ∃ last, counted parts = counted (left parts) ++ [last] := by
  obtain ⟨last, hlast⟩ := exists_last_counted h
  exact ⟨last, by rw [hlast, left, counted_trimParts]⟩

/-- The path above an absolute one. -/
theorem parent?_absolute {p : Path} {part : List Char} {rest : List (List Char)}
    (h : p.parts = [] :: part :: rest) :
    p.parent? =
      if trimParts (part :: rest) = [] then none
      else if left (part :: rest) = [] then some ⟨"/"⟩
      else some ⟨joinParts ([] :: left (part :: rest))⟩ := by
  unfold parent? left
  rw [h]
  dsimp only
  rw [if_pos (components_absolute h).1]
  cases trimParts (part :: rest) with
  | nil => rfl
  | cons b body =>
    rw [if_neg (List.cons_ne_nil _ _)]
    dsimp only
    cases trimParts (b :: body).dropLast with
    | nil => rfl
    | cons l left => rfl

/-- The path above one that begins with `.`. -/
theorem parent?_current {p : Path} {rest : List (List Char)} (h : p.parts = ['.'] :: rest) :
    p.parent? =
      if trimParts rest = [] then some ⟨""⟩ else some ⟨joinParts (['.'] :: left rest)⟩ := by
  unfold parent? left
  rw [h]
  dsimp only
  rw [(components_relative h (List.cons_ne_nil _ _)).1, if_neg Bool.false_ne_true, if_pos rfl]
  cases trimParts rest with
  | nil => rfl
  | cons b body => rfl

/-- The path above another relative one. -/
theorem parent?_relative {p : Path} {first : List Char} {rest : List (List Char)}
    (h : p.parts = first :: rest) (hf : first ≠ []) (hdot : first ≠ ['.']) :
    p.parent? =
      if trimParts (first :: rest) = [] then none else some ⟨joinParts (left (first :: rest))⟩ := by
  unfold parent? left
  rw [h]
  dsimp only
  rw [(components_relative h hf).1, if_neg Bool.false_ne_true, if_neg hdot]
  cases trimParts (first :: rest) with
  | nil => rfl
  | cons b body => rfl

section Shapes

variable {p q : Path} {first : List Char} {rest : List (List Char)}

/-- The parts that are left of a path, or of the path behind its first part, have no separators. -/
theorem not_mem_left {parts : List (List Char)} (h : parts <:+ p.parts) :
    ∀ part ∈ left parts, '/' ∉ part :=
  fun _ hm => not_mem_part (h.subset ((left_isPrefix parts).subset hm))

theorem exists_last_absolute (hparts : p.parts = [] :: first :: rest) (h : p.parent? = some q) :
    ∃ last, p.components = q.components ++ [last] := by
  rw [parent?_absolute hparts] at h
  split at h
  · cases h
  obtain ⟨last, hlast⟩ := exists_last_left ‹_›
  refine ⟨last, ?_⟩
  rw [(components_absolute hparts).2, hlast]
  have hslash := not_mem_left ⟨[[]], hparts.symm⟩
  generalize left (first :: rest) = above at h hslash
  cases above with
  | nil =>
    cases h
    rfl
  | cons l above =>
    cases h
    have hjoined := parts_joinParts (List.forall_mem_cons.mpr ⟨List.not_mem_nil, hslash⟩)
      (List.cons_ne_nil _ _)
    rw [(components_absolute hjoined).2]
    rfl

theorem exists_last_current (hparts : p.parts = ['.'] :: rest) (h : p.parent? = some q) :
    ∃ last, p.components = q.components ++ [last] := by
  have hdot : ['.'] ≠ [] := List.cons_ne_nil _ _
  rw [parent?_current hparts] at h
  rw [(components_relative hparts hdot).2, if_pos rfl]
  split at h
  · cases h
    refine ⟨.current, ?_⟩
    rw [← counted_trimParts, ‹trimParts rest = []›]
    rfl
  · obtain ⟨last, hlast⟩ := exists_last_left ‹_›
    cases h
    have hslash := not_mem_left ⟨[['.']], hparts.symm⟩
    have hjoined := parts_joinParts (List.forall_mem_cons.mpr ⟨(by decide : '/' ∉ ['.']), hslash⟩)
      (List.cons_ne_nil _ _)
    rw [hlast, (components_relative hjoined hdot).2, if_pos rfl]
    exact ⟨last, rfl⟩

theorem exists_last_relative (hparts : p.parts = first :: rest) (hf : first ≠ []) (hdot : first ≠ ['.'])
    (h : p.parent? = some q) : ∃ last, p.components = q.components ++ [last] := by
  rw [parent?_relative hparts hf hdot] at h
  split at h
  · cases h
  obtain ⟨last, hlast⟩ := exists_last_left ‹_›
  cases h
  refine ⟨last, ?_⟩
  rw [(components_relative hparts hf).2, if_neg hdot, hlast]
  have hslash := not_mem_left ⟨[], hparts.symm⟩
  have hprefix := left_isPrefix (first :: rest)
  generalize left (first :: rest) = above at hslash hprefix
  cases above with
  | nil => rfl
  | cons l above =>
    -- what stays begins as the path does
    obtain ⟨rfl, -⟩ := List.cons_prefix_cons.mp hprefix
    rw [(components_relative (parts_joinParts hslash (List.cons_ne_nil _ _)) hf).2, if_neg hdot]

end Shapes

/-- **A path is the one above it and one more component.** -/
theorem components_of_parent? {p q : Path} (h : p.parent? = some q) :
    ∃ last, p.components = q.components ++ [last] := by
  rcases p.parts_cases with ⟨first, rest, hparts⟩ | rfl | ⟨first, rest, hparts, hf⟩
  · exact exists_last_absolute hparts h
  · cases h
  · by_cases hdot : first = ['.']
    · subst hdot
      exact exists_last_current hparts h
    · exact exists_last_relative hparts hf hdot h

theorem length_of_parent? {p q : Path} (h : p.parent? = some q) :
    p.components.length = q.components.length + 1 := by
  obtain ⟨last, hlast⟩ := components_of_parent? h
  rw [hlast, List.length_append, List.length_singleton]

/-- **The way up ends** where nothing is left, or nothing but the root. -/
theorem parent?_eq_none_iff {p : Path} : p.parent? = none ↔ p.components = [] ∨ p.components = [.root] := by
  have htrimmed {parts : List (List Char)} (h : trimParts parts = []) : counted parts = [] := by
    rw [← counted_trimParts, h]
    rfl
  have hcounted {parts : List (List Char)} (h : trimParts parts ≠ []) : counted parts ≠ [] := by
    obtain ⟨last, hlast⟩ := exists_last_counted h
    rw [hlast]
    exact List.concat_ne_nil _ _
  rcases p.parts_cases with ⟨part, rest, hparts⟩ | rfl | ⟨first, rest, hparts, hf⟩
  · rw [parent?_absolute hparts, (components_absolute hparts).2]
    by_cases htrim : trimParts (part :: rest) = []
    · simp [htrim, htrimmed htrim]
    · rw [if_neg htrim]
      simp only [List.cons.injEq, true_and, reduceCtorEq, false_or, hcounted htrim, iff_false]
      split <;> simp
  · exact ⟨fun _ => .inl (by decide), fun _ => by decide⟩
  · by_cases hdot : first = ['.']
    · subst hdot
      rw [parent?_current hparts, (components_relative hparts hf).2, if_pos rfl]
      simp only [reduceCtorEq, List.cons.injEq, false_and, or_self, iff_false]
      split <;> simp
    · have hempty : isEmptyPart first = false := by
        unfold isEmptyPart
        simp [hf, hdot]
      obtain ⟨c, hc⟩ := exists_ofPart? (Bool.eq_false_iff.mp hempty)
      have hfirst : counted (first :: rest) = c :: counted rest := List.filterMap_cons_some hc
      have htrim : trimParts (first :: rest) ≠ [] := fun h => by
        rw [htrimmed h] at hfirst
        cases hfirst
      have hroot : c ≠ .root := fun e => by
        unfold Component.ofPart? at hc
        rw [e] at hc
        split at hc
        · cases hc
        split at hc
        · cases hc
        · cases hc
      rw [parent?_relative hparts hf hdot, if_neg htrim, (components_relative hparts hf).2, if_neg hdot, hfirst]
      simp [hroot]

/-! ## 4. All the way up -/

/-- The path that so many steps lead up to. -/
inductive Ancestor (p : Path) : Nat → Path → Prop
  /-- None. -/
  | self : Ancestor p 0 p
  /-- One more. -/
  | above {n : Nat} {q r : Path} : Ancestor p n q → q.parent? = some r → Ancestor p (n + 1) r

theorem ancestor_zero {p q : Path} : p.Ancestor 0 q ↔ p = q := by
  constructor
  · intro h
    cases h
    rfl
  · intro h
    subst h
    exact .self

/-- The steps after the first one are made from where it leads. -/
theorem ancestor_succ {p q : Path} {n : Nat} :
    p.Ancestor (n + 1) q ↔ ∃ r, p.parent? = some r ∧ r.Ancestor n q := by
  constructor
  · intro h
    induction n generalizing q with
    | zero =>
      cases h with
      | above h hq =>
        cases h
        exact ⟨q, hq, .self⟩
    | succ n ih =>
      cases h with
      | above h hq =>
        obtain ⟨r, hp, hr⟩ := ih h
        exact ⟨r, hp, hr.above hq⟩
  · intro h
    obtain ⟨r, hp, h⟩ := h
    induction h with
    | self => exact .above .self hp
    | above _ hq ih => exact .above ih hq

/-- The ancestors of a path are the path itself and those of the one above it. -/
theorem ancestors_of_parent? {p q : Path} (h : p.parent? = some q) : p.ancestors = p :: q.ancestors := by
  unfold ancestors
  rw [length_of_parent? h, ancestors.upTo, h]

theorem ancestors_of_top {p : Path} (h : p.parent? = none) : p.ancestors = [p] := by
  unfold ancestors
  cases p.components.length with
  | zero => rfl
  | succ n => rw [ancestors.upTo, h]

/-- As many steps as there are components lead to all ancestors. -/
theorem getElem?_upTo {p q : Path} {bound n : Nat} (h : p.components.length ≤ bound) :
    (ancestors.upTo bound p)[n]? = some q ↔ p.Ancestor n q := by
  induction bound generalizing p n with
  | zero =>
    have htop : p.parent? = none := Option.eq_none_iff_forall_ne_some.mpr fun r hr => by
      have := length_of_parent? hr
      omega
    cases n with
    | zero => exact Option.some_inj.trans ancestor_zero.symm
    | succ n =>
      rw [ancestor_succ, htop]
      simp [ancestors.upTo]
  | succ bound ih =>
    unfold ancestors.upTo
    cases n with
    | zero => exact Option.some_inj.trans ancestor_zero.symm
    | succ n =>
      rw [ancestor_succ, List.getElem?_cons_succ]
      cases hp : p.parent? with
      | none => simp
      | some r =>
        have := length_of_parent? hp
        simp only [Option.some_inj, exists_eq_left']
        exact ih (by omega)

/-- **The ancestors of a path are what the steps up lead to**, none left out. -/
theorem getElem?_ancestors {p q : Path} {n : Nat} : p.ancestors[n]? = some q ↔ p.Ancestor n q :=
  getElem?_upTo (Nat.le_refl _)

end Path

end Stache
