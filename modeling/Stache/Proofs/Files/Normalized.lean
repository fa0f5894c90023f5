import Stache.Proofs.Files.Ancestors

/-!
# Normal form

The components of a path are put on a stack, one after the other: `.` adds nothing, `..` takes a name away,
vanishes at the root, and stays elsewhere. What stands there at the end are the components of the normal form,
and they would be put there again one by one. So all that counts of a path is the stack that it leaves.

* `Path.stack`, `Path.Standing` -- the stack that a path leaves, and all stacks that can be left;
* `Path.components_normalize`, `Path.stack_normalize` -- **the normal form has the components on the stack, and
  leaves the same stack**;
* `Path.normalize_normal` -- **what normal forms are, that they spell the same place, and that a path may be
  brought into normal form before another one is joined to it**.
-/

namespace Stache

namespace Path

/-! ## 1. Components of joined paths -/

/-- The component in front of those that the parts stand for. -/
def lead (p : Path) : List Component :=
  if p.isAbsolute then [.root] else if p.parts.head? == some ['.'] then [.current] else []

theorem components_eq (p : Path) : p.components = p.lead ++ counted p.parts := by
  unfold components lead
  dsimp only
  split
  · rfl
  split
  · rfl
  · rfl

/-- An absolute path stands alone. -/
theorem join_of_isAbsolute (p : Path) {q : Path} (hq : q.isAbsolute = true) : p.join q = q := by
  unfold join
  rw [if_pos hq]

/-- What counts of a relative path stands behind what counts of the path that it is joined to. -/
theorem counted_join (p : Path) {q : Path} (hq : q.isAbsolute = false) :
    counted (p.join q).parts = counted p.parts ++ counted q.parts := by
  obtain ⟨_, front, hjoin, hparts⟩ := p.parts_join hq
  have hfront : counted p.parts = counted front := by
    rcases hparts with hparts | hparts
    · rw [hparts]
    · rw [hparts, counted_append]
      exact List.append_nil _
  rw [hjoin, counted_append, hfront]

/-- The component is that of a single part, and its text is this part. -/
structure Component.IsPart (c : Component) : Prop where
  read : Component.ofPart? c.text.toList = some c
  slash : '/' ∉ c.text.toList

/-- What the parts of a path stand for is of this kind. -/
theorem isPart_of_mem {p : Path} {c : Component} (h : c ∈ counted p.parts) : c.IsPart := by
  obtain ⟨part, hpart, hread⟩ := List.mem_filterMap.mp h
  have hslash := not_mem_part hpart
  have hsame := hread
  unfold Component.ofPart? at hread
  split at hread
  · cases hread
  split at hread
  · cases hread
    exact ⟨by decide, by decide⟩
  · cases hread
    refine ⟨?_, ?_⟩
    · show Component.ofPart? (String.ofList part).toList = _
      rw [String.toList_ofList]
      exact hsame
    · show '/' ∉ (String.ofList part).toList
      rwa [String.toList_ofList]

/-- **One more part is one more component.** -/
theorem components_join_part (p : Path) {c : Component} (hc : c.IsPart) :
    (p.join ⟨c.text⟩).isAbsolute = p.isAbsolute ∧ (p.join ⟨c.text⟩).components = p.components ++ [c] := by
  have hrelative := isAbsolute_name hc.slash
  obtain ⟨habsolute, front, hjoin, hparts⟩ := p.parts_join hrelative
  have hone : counted (parts ⟨c.text⟩) = [c] := by
    rw [parts_name hc.slash]
    exact List.filterMap_cons_some hc.read
  have hlead : (p.join ⟨c.text⟩).lead = p.lead := by
    have hdot : c.text.toList ≠ ['.'] := fun e => by
      have hread := hc.read
      rw [e] at hread
      cases hread
    unfold lead
    rw [habsolute, hjoin, parts_name hc.slash]
    cases front with
    | nil =>
      -- nothing stands before the part, and it is no `.`
      rcases hparts with hparts | hparts
      · exact absurd hparts (List.splitOn_ne_nil _ _)
      · rw [hparts]
        simp [hdot]
    | cons first front =>
      rcases hparts with hparts | hparts
      · rw [hparts]
        rfl
      · rw [hparts]
        rfl
  refine ⟨habsolute, ?_⟩
  rw [components_eq, components_eq, hlead, counted_join p hrelative, hone, List.append_assoc]

theorem ofComponents_concat (components : List Component) (c : Component) :
    ofComponents (components ++ [c]) = (ofComponents components).join ⟨c.text⟩ := by
  unfold ofComponents
  rw [List.foldl_append]
  rfl

/-! ## 2. The stack -/

/-- The stack that a path leaves, the last component first. -/
def stack (p : Path) : List Component :=
  p.components.foldl pushComponent []

/-- The stacks that are left: names upon the root, if the path is absolute, or else upon a run of `..`. -/
inductive Standing : Bool → List Component → Prop
  /-- The root. -/
  | root : Standing true [.root]
  /-- A run of `..`. -/
  | up (n : Nat) : Standing false (List.replicate n .parent)
  /-- A name upon a stack. -/
  | name {isRooted : Bool} {below : List Component} {text : String} :
    (Component.normal text).IsPart → Standing isRooted below → Standing isRooted (.normal text :: below)

theorem stack_eq (p : Path) :
    p.stack = (counted p.parts).foldl pushComponent (if p.isAbsolute then [.root] else []) := by
  unfold stack
  rw [components_eq, List.foldl_append]
  unfold lead
  split
  · rfl
  split
  · rfl
  · rfl

theorem stack_join (p : Path) {q : Path} (hq : q.isAbsolute = false) :
    (p.join q).stack = (counted q.parts).foldl pushComponent p.stack := by
  rw [stack_eq, stack_eq, counted_join p hq, List.foldl_append, (p.parts_join hq).1]

namespace Standing

variable {isRooted : Bool} {held : List Component}

theorem push (h : Standing isRooted held) {c : Component} (hc : c.IsPart) :
    Standing isRooted (pushComponent held c) := by
  cases c with
  | root => cases hc.read
  | current => cases hc.read
  | parent =>
    cases h with
    | root => exact .root
    | up n =>
      cases n with
      | zero => exact .up 1
      | succ n => exact .up (n + 2)
    | name _ h => exact h
  | normal text => exact .name hc h

theorem foldl_push (h : Standing isRooted held) {components : List Component}
    (hc : ∀ c ∈ components, c.IsPart) : Standing isRooted (components.foldl pushComponent held) := by
  induction components generalizing held with
  | nil => exact h
  | cons c components ih =>
    obtain ⟨hfirst, hrest⟩ := List.forall_mem_cons.mp hc
    exact ih (h.push hfirst) hrest

/-- **The stack is built again by its own components.** -/
theorem rebuilt (h : Standing isRooted held) : held.reverse.foldl pushComponent [] = held := by
  induction h with
  | root => rfl
  | up n =>
    rw [List.reverse_replicate]
    induction n with
    | zero => rfl
    | succ n ih =>
      have hlast : (List.replicate (n + 1) Component.parent).foldl pushComponent [] =
          pushComponent ((List.replicate n .parent).foldl pushComponent []) .parent := by
        rw [List.replicate_succ', List.foldl_append]
        rfl
      rw [hlast, ih]
      cases n with
      | zero => rfl
      | succ n => rfl
  | name _ _ ih =>
    rw [List.reverse_cons, List.foldl_append, ih]
    rfl

theorem isPart_parent : Component.parent.IsPart :=
  ⟨by decide, by decide⟩

/-- **The components of a stack are those of the path that they make.** -/
theorem components_ofComponents (h : Standing isRooted held) :
    (ofComponents held.reverse).isAbsolute = isRooted ∧ (ofComponents held.reverse).components = held.reverse := by
  induction h with
  | root => exact ⟨by decide, by decide⟩
  | up n =>
    rw [List.reverse_replicate]
    induction n with
    | zero => exact ⟨by decide, by decide⟩
    | succ n ih =>
      obtain ⟨habsolute, hcomponents⟩ :=
        (ofComponents (List.replicate n .parent)).components_join_part isPart_parent
      rw [List.replicate_succ', ofComponents_concat, habsolute, hcomponents]
      exact ⟨ih.1, by rw [ih.2]⟩
  | @name _ below _ hc _ ih =>
    obtain ⟨habsolute, hcomponents⟩ := (ofComponents below.reverse).components_join_part hc
    rw [List.reverse_cons, ofComponents_concat, habsolute, hcomponents]
    exact ⟨ih.1, by rw [ih.2]⟩

/-- In order: the root or a run of `..`, then names. -/
theorem exists_names (h : Standing isRooted held) : ∃ (ups : Nat) (names : List String),
    held.reverse = (if isRooted then [.root] else List.replicate ups .parent) ++ names.map .normal := by
  induction h with
  | root => exact ⟨0, [], rfl⟩
  | up n => exact ⟨n, [], by simp⟩
  | @name _ _ text _ _ ih =>
    obtain ⟨ups, names, ih⟩ := ih
    exact ⟨ups, names ++ [text], by rw [List.reverse_cons, ih, List.map_append, List.append_assoc]; rfl⟩

end Standing

theorem standing_stack (p : Path) : Standing p.isAbsolute p.stack := by
  rw [stack_eq]
  refine Standing.foldl_push ?_ fun c hc => isPart_of_mem hc
  cases p.isAbsolute with
  | true => exact .root
  | false => exact .up 0

/-! ## 3. Normal forms -/

theorem components_normalize (p : Path) : p.normalize.components = p.stack.reverse :=
  p.standing_stack.components_ofComponents.2

theorem isAbsolute_normalize (p : Path) : p.normalize.isAbsolute = p.isAbsolute :=
  p.standing_stack.components_ofComponents.1

/-- **The normal form leaves the stack that the path leaves.** -/
theorem stack_normalize (p : Path) : p.normalize.stack = p.stack := by
  unfold stack
  rw [components_normalize]
  exact p.standing_stack.rebuilt

/-- So paths have the same normal form if they leave the same stack, and only then. -/
theorem normalize_eq_iff {p q : Path} : p.normalize = q.normalize ↔ p.stack = q.stack := by
  constructor
  · intro h
    rw [← stack_normalize p, h, stack_normalize]
  · intro h
    show ofComponents p.stack.reverse = ofComponents q.stack.reverse
    rw [h]

/-- What is joined to a path may be joined to its normal form. -/
theorem normalize_join (p q : Path) : (p.normalize.join q).normalize = (p.join q).normalize := by
  cases hq : q.isAbsolute with
  | true => rw [join_of_isAbsolute _ hq, join_of_isAbsolute _ hq]
  | false => rw [normalize_eq_iff, stack_join _ hq, stack_join _ hq, stack_normalize]

/-! ## 4. Places -/

/-- One component further: the root is where it is, `..` goes up, a name goes down. -/
def Component.follow (place : Location) : Component → Location
  | .root => []
  | .current => place
  | .parent => place.dropLast
  | .normal name => place ++ [name]

/-- A part goes where its component goes. -/
theorem foldl_follow (parts : List (List Char)) (place : Location) :
    parts.foldl follow place = (counted parts).foldl Component.follow place := by
  induction parts generalizing place with
  | nil => rfl
  | cons part parts ih =>
    rw [List.foldl_cons, ih]
    by_cases hempty : isEmptyPart part = true
    · have hskip : counted (part :: parts) = counted parts :=
        List.filterMap_cons_none (ofPart?_of_isEmptyPart hempty)
      rw [hskip, follow, if_pos hempty]
    · have hpart : ∃ c, Component.ofPart? part = some c ∧ follow place part = c.follow place := by
        unfold isEmptyPart at hempty
        simp only [Bool.or_eq_true, beq_iff_eq] at hempty
        unfold Component.ofPart? follow isEmptyPart
        simp only [Bool.or_eq_true, beq_iff_eq]
        rw [if_neg hempty, if_neg hempty]
        split
        · exact ⟨_, rfl, rfl⟩
        · exact ⟨_, rfl, rfl⟩
      obtain ⟨c, hread, hfollow⟩ := hpart
      have htake : counted (part :: parts) = c :: counted parts := List.filterMap_cons_some hread
      rw [htake, hfollow, List.foldl_cons]

/-- **The place that a path spells is told by its components.** -/
theorem placeFrom_eq (p : Path) (cwd : Location) :
    p.placeFrom cwd = p.components.foldl Component.follow cwd := by
  unfold placeFrom
  rw [foldl_follow, components_eq, List.foldl_append]
  unfold lead
  split
  · rfl
  split
  · rfl
  · rfl

/-- A stack with one more component spells one component further. -/
theorem place_pushComponent (held : List Component) (c : Component) (cwd : Location) :
    (pushComponent held c).reverse.foldl Component.follow cwd =
      c.follow (held.reverse.foldl Component.follow cwd) := by
  cases c with
  | root => simp [pushComponent, Component.follow]
  | current => rfl
  | normal name => simp [pushComponent, Component.follow]
  | parent =>
    rcases held with _ | ⟨_ | _ | _ | _, below⟩ <;> simp [pushComponent, Component.follow]

theorem place_stack (p : Path) (cwd : Location) :
    p.stack.reverse.foldl Component.follow cwd = p.placeFrom cwd := by
  have hall (components held : List Component) :
      (components.foldl pushComponent held).reverse.foldl Component.follow cwd =
        components.foldl Component.follow (held.reverse.foldl Component.follow cwd) := by
    induction components generalizing held with
    | nil => rfl
    | cons c components ih => rw [List.foldl_cons, ih, place_pushComponent, List.foldl_cons]
  rw [placeFrom_eq]
  exact hall p.components []

/-- **Normal forms.** The components of a normal form are the root or, if the path is relative, a run of `..`,
    and then names. It is absolute if the path is, and from every directory it spells the same place. It is its
    own normal form, and whatever is joined to the path may be joined to its normal form. -/
theorem normalize_normal (p q : Path) :
    (∃ (ups : Nat) (names : List String), p.normalize.components =
      (if p.isAbsolute then [.root] else List.replicate ups .parent) ++ names.map .normal) ∧
    p.normalize.isAbsolute = p.isAbsolute ∧
    (∀ cwd, p.normalize.placeFrom cwd = p.placeFrom cwd) ∧
    p.normalize.normalize = p.normalize ∧
    (p.join q).normalize = (p.normalize.join q).normalize := by
  refine ⟨?_, p.isAbsolute_normalize, fun cwd => ?_, ?_, (p.normalize_join q).symm⟩
  · rw [components_normalize]
    exact p.standing_stack.exists_names
  · rw [← place_stack, stack_normalize, place_stack]
  · rw [normalize_eq_iff, stack_normalize]

/-- A `..` takes a name away or stays, and a lone `.` leaves nothing. -/
example : (normalize ⟨"a/./b/../../../c/"⟩, normalize ⟨"/.."⟩, normalize ⟨"."⟩) =
    (⟨"../c"⟩, ⟨"/"⟩, ⟨""⟩) := by decide +kernel

end Path

end Stache
