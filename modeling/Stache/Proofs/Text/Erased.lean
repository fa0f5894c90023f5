import Stache.Proofs.Text.Marks

/-!
# Texts without marks

Marks are erased from the left, wherever they stand.

* `leadingMark?_eq_some`, `leadingMark?_eq_none` -- the mark that a text begins with;
* `eraseAll_mark`, `eraseAll_keep` -- one step: a mark is dropped, or a character is kept;
* `eraseAll_eq_self` -- **a text stays as it is** if and only if no mark stands in it.
-/

namespace Stache.Text

variable {marks : List (List Char)} {mark text rest : List Char} {c : Char}

theorem leadingMark?_eq_none : leadingMark? marks text = none ↔ ∀ mark ∈ marks, ¬ mark <+: text := by
  simp only [leadingMark?, List.find?_eq_none, Bool.not_eq_true, Option.isSome_eq_false_iff,
    Option.isNone_iff_eq_none, afterMark?_eq_none]

theorem leadingMark?_eq_some (h : leadingMark? marks text = some mark) : mark ∈ marks ∧ mark <+: text := by
  have hfound : (afterMark? mark text).isSome = true :=
    List.find?_some (p := fun mark => (afterMark? mark text).isSome) h
  obtain ⟨rest, hrest⟩ := Option.isSome_iff_exists.mp hfound
  exact ⟨List.mem_of_find?_eq_some h, rest, (afterMark?_eq_some.mp hrest).symm⟩

@[simp] theorem eraseAll_nil : eraseAll marks [] = [] := rfl

theorem eraseFrom_append : eraseFrom marks mark.length (mark ++ rest) = eraseAll marks rest := by
  induction mark with
  | nil => rfl
  | cons m mark ih => exact ih

/-- A mark in front is dropped. -/
theorem eraseAll_mark (hne : mark ≠ []) (h : leadingMark? marks (mark ++ rest) = some mark) :
    eraseAll marks (mark ++ rest) = eraseAll marks rest := by
  obtain ⟨m, mark, rfl⟩ := List.exists_cons_of_ne_nil hne
  rw [eraseAll, List.cons_append, eraseFrom]
  rw [List.cons_append] at h
  rw [h]
  exact eraseFrom_append

/-- A character at which no mark stands is kept. -/
theorem eraseAll_keep (h : leadingMark? marks (c :: text) = none) :
    eraseAll marks (c :: text) = c :: eraseAll marks text := by
  rw [eraseAll, eraseFrom, h]
  rfl

variable (hmarks : ∀ mark ∈ marks, mark ≠ [])

include hmarks

/-- The text is done step by step. -/
theorem eraseAll_induction {motive : List Char → Prop} (nil : motive [])
    (drop : ∀ mark rest, mark ∈ marks → mark ≠ [] → eraseAll marks (mark ++ rest) = eraseAll marks rest →
      motive rest → motive (mark ++ rest))
    (keep : ∀ c text, (∀ mark ∈ marks, ¬ mark <+: c :: text) →
      eraseAll marks (c :: text) = c :: eraseAll marks text → motive text → motive (c :: text))
    (text : List Char) : motive text := by
  -- on the length, since a mark is dropped all at once
  induction hlength : text.length using Nat.strong_induction_on generalizing text with
  | _ length ih =>
    subst hlength
    cases text with
    | nil => exact nil
    | cons c text =>
      cases h : leadingMark? marks (c :: text) with
      | none => exact keep c text (leadingMark?_eq_none.mp h) (eraseAll_keep h) (ih _ (by simp) text rfl)
      | some mark =>
        obtain ⟨hmem, rest, hrest⟩ := leadingMark?_eq_some h
        have hne := hmarks mark hmem
        rw [← hrest] at h ⊢
        refine drop mark rest hmem hne (eraseAll_mark hne h) (ih _ ?_ rest rfl)
        have hpos := List.length_pos_iff.mpr hne
        rw [← hrest, List.length_append]
        omega

theorem length_eraseAll_le (text : List Char) : (eraseAll marks text).length ≤ text.length := by
  induction text using eraseAll_induction hmarks with
  | nil => exact Nat.le_refl _
  | drop mark rest _ _ hstep ih =>
    rw [hstep, List.length_append]
    omega
  | keep c text _ hstep ih =>
    rw [hstep]
    exact Nat.succ_le_succ ih

/-- **A text stays as it is** if and only if no mark stands in it. -/
theorem eraseAll_eq_self : eraseAll marks text = text ↔ ∀ mark ∈ marks, ¬ mark <:+: text := by
  induction text using eraseAll_induction hmarks with
  | nil => exact iff_of_true rfl fun mark hm h => hmarks mark hm (List.infix_nil.mp h)
  | drop mark rest hm hne hstep _ =>
    refine iff_of_false (fun h => ?_) fun h => h mark hm (List.prefix_append mark rest).isInfix
    have hle := length_eraseAll_le hmarks rest
    have hpos := List.length_pos_iff.mpr hne
    rw [← hstep, h, List.length_append] at hle
    omega
  | keep c text hno hstep ih =>
    rw [hstep, List.cons.injEq, and_iff_right rfl, ih]
    refine forall₂_congr fun mark hm => ?_
    rw [List.infix_cons_iff, or_iff_right (hno mark hm)]

end Stache.Text
