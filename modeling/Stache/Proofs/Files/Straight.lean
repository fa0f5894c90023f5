import Stache.Proofs.Files.Normalized

/-!
# The way up, in normal form

One step up takes one component off a spelling, so it puts one on the stack, takes one off, or changes nothing.
Seen in normal form, the way up is a walk that begins at the path, and every directory above the normal form is
on it, the nearest one first. A spelling with `..` may pass through others on the way.

* `Path.upwards` -- the stacks above a stack;
* `Path.stack_of_parent?` -- **one step up changes the stack by at most one component**;
* `Path.upwards_walked` -- **the stacks above the path are met in their order**, whatever else is met;
* `Path.Straight` -- nothing else is met; `Path.straight_normalize`, normal forms are of this kind.
-/

namespace Stache

/-! ## 1. First occurrences -/

section Dups

variable {α : Type} [BEq α]

/-- First occurrences are taken one after the other, and the others that are equal are left out of the rest. -/
theorem eraseDups_induction {motive : List α → Prop} (nil : motive [])
    (cons : ∀ value values, motive (values.filter fun v => !v == value) → motive (value :: values))
    (values : List α) : motive values := by
  induction hn : values.length using Nat.strongRecOn generalizing values with
  | ind n ih =>
    cases values with
    | nil => exact nil
    | cons value values =>
      refine cons value values (ih _ ?_ _ rfl)
      rw [← hn]
      exact Nat.lt_succ_of_le (List.length_filter_le _ _)

/-- What is left out does not matter for the order of first occurrences. -/
theorem eraseDups_filter [LawfulBEq α] (p : α → Bool) (values : List α) :
    (values.filter p).eraseDups = values.eraseDups.filter p := by
  induction values using eraseDups_induction with
  | nil => rfl
  | cons value values ih =>
    rw [List.eraseDups_cons, List.filter_cons, List.filter_cons]
    split
    · rw [List.eraseDups_cons, ← ih, List.filter_filter, List.filter_filter]
      simp only [Bool.and_comm]
    · rename_i hvalue
      rw [← ih, List.filter_filter]
      refine congrArg List.eraseDups (List.filter_congr fun v _ => ?_)
      cases hv : p v with
      | false => rfl
      | true =>
        have hne : v ≠ value := fun e => hvalue (e ▸ hv)
        simp [hne]

end Dups

namespace Path

/-! ## 2. Stacks above a stack -/

/-- The stacks above a stack, itself first, up to the root or to the empty one. -/
def upwards : List Component → List (List Component)
  | [] => [[]]
  | .root :: below => [.root :: below]
  | c :: below => (c :: below) :: upwards below

theorem upwards_cons {c : Component} (hc : c ≠ .root) (below : List Component) :
    upwards (c :: below) = (c :: below) :: upwards below := by
  cases c with
  | root => exact absurd rfl hc
  | current => rfl
  | parent => rfl
  | normal name => rfl

theorem suffix_of_mem_upwards {held above : List Component} (h : above ∈ upwards held) : above <:+ held := by
  induction held with
  | nil => exact List.mem_singleton.mp h ▸ List.suffix_rfl
  | cons c below ih =>
    by_cases hc : c = .root
    · subst hc
      exact List.mem_singleton.mp h ▸ List.suffix_rfl
    · rw [upwards_cons hc] at h
      rcases List.mem_cons.mp h with rfl | h
      · exact List.suffix_rfl
      · exact (ih h).trans (List.suffix_cons c below)

theorem not_suffix_cons {c : Component} {held : List Component} : ¬ c :: held <:+ held := by
  intro h
  have hlength := h.length_le
  rw [List.length_cons] at hlength
  omega

/-- A stack comes first of those above it, and once. -/
theorem upwards_eq (held : List Component) :
    upwards held = held :: (upwards held).filter fun above => !above == held := by
  cases held with
  | nil => rfl
  | cons c below =>
    have hself : ((c :: below) == (c :: below)) = true := beq_self_eq_true _
    by_cases hc : c = .root
    · subst hc
      show [_] = _ :: [_].filter _
      rw [List.filter_singleton, hself]
      rfl
    · have hbelow : (upwards below).filter (fun above => !above == c :: below) = upwards below := by
        refine List.filter_eq_self.mpr fun above h => ?_
        have hne : above ≠ c :: below := fun e => not_suffix_cons (e ▸ suffix_of_mem_upwards h)
        simp [hne]
      rw [upwards_cons hc, List.filter_cons, hself, hbelow]
      rfl

/-! ## 3. One step -/

/-- The last component of a path that has one above it is not the root. -/
theorem ne_root_of_parent? {p q : Path} (h : p.parent? = some q) {last : Component}
    (hlast : p.components = q.components ++ [last]) : last ≠ .root := by
  rintro rfl
  have hcounted : counted p.parts = [] := by
    refine List.eq_nil_iff_forall_not_mem.mpr fun c hc => ?_
    have hend : (counted p.parts).getLast? = some .root := by
      have hwhole : p.components.getLast? = some .root := by rw [hlast, List.getLast?_concat]
      rwa [components_eq, List.getLast?_append_of_ne_nil _ (List.ne_nil_of_mem hc)] at hwhole
    cases (isPart_of_mem (List.mem_of_getLast? hend)).read
  have htop : p.parent? = none := by
    rw [parent?_eq_none_iff]
    rw [components_eq, hcounted, List.append_nil] at hlast ⊢
    unfold lead at hlast ⊢
    split
    · exact .inr rfl
    split
    · rw [if_neg ‹_›, if_pos ‹_›] at hlast
      have hend := congrArg List.getLast? hlast
      rw [List.getLast?_concat] at hend
      cases hend
    · exact .inl rfl
  rw [htop] at h
  cases h

/-- **One step up changes the stack by at most one component.** -/
theorem stack_of_parent? {p q : Path} (h : p.parent? = some q) :
    q.stack = p.stack ∨ (∃ c, c ≠ .root ∧ p.stack = c :: q.stack) ∨
      ∃ c, c ≠ .root ∧ q.stack = c :: p.stack := by
  obtain ⟨last, hlast⟩ := components_of_parent? h
  have hstack : p.stack = pushComponent q.stack last := by
    unfold stack
    rw [hlast, List.foldl_append]
    rfl
  rw [hstack]
  cases last with
  | root => exact absurd rfl (ne_root_of_parent? h hlast)
  | current => exact .inl rfl
  | normal name => exact .inr (.inl ⟨.normal name, Component.noConfusion, rfl⟩)
  | parent =>
    have hstanding := q.standing_stack
    generalize q.isAbsolute = isRooted, q.stack = held at hstanding
    cases hstanding with
    | root => exact .inl rfl
    | up n =>
      cases n with
      | zero => exact .inr (.inl ⟨.parent, Component.noConfusion, rfl⟩)
      | succ n => exact .inr (.inl ⟨.parent, Component.noConfusion, rfl⟩)
    | @name _ _ name _ _ => exact .inr (.inr ⟨.normal name, Component.noConfusion, rfl⟩)

/-! ## 4. The walk -/

/-- The stacks on the way up, each when it is met for the first time. -/
def walk (p : Path) : List (List Component) :=
  (p.ancestors.map stack).eraseDups

/-- At the top nothing else is met. -/
theorem walk_of_top {p : Path} (h : p.parent? = none) : p.walk = upwards p.stack := by
  have hupwards : upwards p.stack = [p.stack] := by
    rcases parent?_eq_none_iff.mp h with h | h
    · rw [stack, h]
      rfl
    · rw [stack, h]
      rfl
  rw [walk, ancestors_of_top h, hupwards]
  rfl

/-- The walk goes on from the path above. -/
theorem walk_of_parent? {p q : Path} (h : p.parent? = some q) :
    p.walk = p.stack :: q.walk.filter fun above => !above == p.stack := by
  rw [walk, ancestors_of_parent? h, List.map_cons, List.eraseDups_cons, eraseDups_filter]
  rfl

/-- **The stacks above that of a path are met in their order**, whatever else is met on the way. -/
theorem upwards_walked (p : Path) :
    p.walk.filter (fun above => decide (above <:+ p.stack)) = upwards p.stack := by
  induction hn : p.components.length using Nat.strongRecOn generalizing p with
  | ind n ih =>
    cases hp : p.parent? with
    | none =>
      rw [walk_of_top hp]
      exact List.filter_eq_self.mpr fun above h => decide_eq_true (suffix_of_mem_upwards h)
    | some q =>
      have hrest := ih q.components.length (by have := length_of_parent? hp; omega) q rfl
      -- it is enough that the walk from the path above meets them, too
      have henough (h : q.walk.filter (fun above => decide (above <:+ p.stack)) = upwards p.stack) :
          p.stack :: q.walk.filter (fun above => decide (above <:+ p.stack) && !above == p.stack) =
            upwards p.stack := by
        rw [upwards_eq, ← h, List.filter_filter]
        simp only [Bool.and_comm]
      rw [walk_of_parent? hp, List.filter_cons, if_pos (decide_eq_true List.suffix_rfl), List.filter_filter]
      rcases stack_of_parent? hp with hsame | ⟨c, hc, hput⟩ | ⟨c, hc, htaken⟩
      · exact henough (hsame ▸ hrest)
      · -- the stack of the path above is the next one above this one
        rw [hput, upwards_cons hc, ← hrest]
        refine congrArg _ (List.filter_congr fun above _ => ?_)
        rw [Bool.eq_iff_iff]
        simp only [Bool.and_eq_true, decide_eq_true_eq, Bool.not_eq_true', beq_eq_false_iff_ne,
          List.suffix_cons_iff]
        constructor
        · exact fun h => h.1.resolve_left h.2
        · exact fun h => ⟨.inr h, fun e => not_suffix_cons (e ▸ h)⟩
      · -- the stack of the path above is met first, and it is not above this one
        rw [htaken, upwards_cons hc] at hrest
        refine henough ?_
        calc q.walk.filter (fun above => decide (above <:+ p.stack))
            = q.walk.filter fun above => decide (above <:+ p.stack) && decide (above <:+ c :: p.stack) := by
              refine List.filter_congr fun above _ => ?_
              rw [Bool.eq_iff_iff]
              simp only [Bool.and_eq_true, decide_eq_true_eq]
              exact ⟨fun h => ⟨h, h.trans (List.suffix_cons c p.stack)⟩, fun h => h.1⟩
          _ = ((c :: p.stack) :: upwards p.stack).filter fun above => decide (above <:+ p.stack) := by
              rw [← List.filter_filter, hrest]
          _ = (upwards p.stack).filter fun above => decide (above <:+ p.stack) := by
              rw [List.filter_cons, decide_eq_false not_suffix_cons, if_neg Bool.false_ne_true]
          _ = upwards p.stack :=
              List.filter_eq_self.mpr fun above h => decide_eq_true (suffix_of_mem_upwards h)

/-! ## 5. Straight spellings -/

/-- In normal form, every path above the path is on the way to it. So its spelling enters no directory that it
    leaves again. -/
def Straight (p : Path) : Prop :=
  ∀ above ∈ p.ancestors, above.normalize.components <+: p.normalize.components

instance (p : Path) : Decidable p.Straight :=
  inferInstanceAs (Decidable (∀ above ∈ p.ancestors, above.normalize.components <+: p.normalize.components))

theorem straight_iff {p : Path} : p.Straight ↔ ∀ above ∈ p.ancestors, above.stack <:+ p.stack := by
  unfold Straight
  simp only [components_normalize, ← List.reverse_suffix, List.reverse_reverse]

/-- **On a straight way nothing else is met.** -/
theorem Straight.walk_eq {p : Path} (h : p.Straight) : p.walk = upwards p.stack := by
  rw [← upwards_walked, eq_comm, List.filter_eq_self]
  intro held hm
  obtain ⟨above, habove, rfl⟩ := List.mem_map.mp (List.mem_eraseDups.mp hm)
  exact decide_eq_true (straight_iff.mp h above habove)

/-- What is above a path has some of its first components. -/
theorem Ancestor.isPrefix_components {p q : Path} {n : Nat} (h : p.Ancestor n q) : q.components <+: p.components := by
  induction h with
  | self => exact List.prefix_rfl
  | above _ hq ih =>
    obtain ⟨last, hlast⟩ := components_of_parent? hq
    exact ((List.prefix_append _ [last]).trans (hlast ▸ List.prefix_rfl)).trans ih

/-- What is below in a stack is a stack. -/
theorem Standing.of_suffix {isRooted : Bool} {held below : List Component} (h : Standing isRooted held)
    (hs : below <:+ held) : below = [] ∨ Standing isRooted below := by
  induction h with
  | root =>
    rcases List.suffix_cons_iff.mp hs with rfl | hs
    · exact .inr .root
    · exact .inl (List.suffix_nil.mp hs)
  | up n =>
    obtain ⟨_, hbelow⟩ := List.suffix_replicate_iff.mp hs
    rw [hbelow]
    exact .inr (.up below.length)
  | name hc hbelow ih =>
    rcases List.suffix_cons_iff.mp hs with rfl | hs
    · exact .inr (.name hc hbelow)
    · exact ih hs

/-- **Normal forms are straight.** -/
theorem straight_normalize (p : Path) : p.normalize.Straight := by
  rw [straight_iff]
  intro above habove
  obtain ⟨n, hn⟩ := List.getElem?_of_mem habove
  have hprefix := (getElem?_ancestors.mp hn).isPrefix_components
  rw [components_normalize, ← List.reverse_suffix, List.reverse_reverse] at hprefix
  have hstack : above.stack = above.components.reverse := by
    rcases p.standing_stack.of_suffix hprefix with hempty | hstanding
    · rw [stack, List.reverse_eq_nil_iff.mp hempty]
      rfl
    · have hrebuilt := hstanding.rebuilt
      rwa [List.reverse_reverse] at hrebuilt
  rw [stack_normalize, hstack]
  exact hprefix

end Path

end Stache
