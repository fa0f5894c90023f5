import Mathlib.Data.List.Infix
import Stache.Text.Cut

/-!
# Where marks stand

A text begins with a mark, or is cut at the first place where one stands.

* `afterMark?_eq_some`, `afterMark?_eq_none` -- whether a text begins with a mark, and what follows;
* `beforeMark?_eq_some` -- what stands before a mark at the end;
* `cut?_eq_some`, `cut?_eq_none` -- **a text is cut at the first place where the mark stands**, if it stands
  in it; `cut?_char`, `cut?_char_eq_none` -- at the first of the characters that are the mark.
-/

namespace Stache.Text

variable {mark text before after rest : List Char}

theorem afterMark?_eq_some : afterMark? mark text = some rest ↔ text = mark ++ rest := by
  constructor
  · exact append_of_afterMark?
  · intro h
    subst h
    induction mark with
    | nil => rfl
    | cons m mark ih => simp [afterMark?, ih]

theorem afterMark?_eq_none : afterMark? mark text = none ↔ ¬ mark <+: text := by
  rw [Option.eq_none_iff_forall_ne_some]
  constructor
  · intro h ⟨rest, e⟩
    exact h rest (afterMark?_eq_some.mpr e.symm)
  · intro h rest e
    exact h ⟨rest, (afterMark?_eq_some.mp e).symm⟩

theorem beforeMark?_eq_some : beforeMark? mark text = some before ↔ text = before ++ mark := by
  unfold beforeMark?
  rw [Option.map_eq_some_iff]
  simp only [afterMark?_eq_some]
  constructor
  · rintro ⟨rest, hrest, rfl⟩
    rw [← List.reverse_inj, hrest]
    simp
  · rintro rfl
    exact ⟨before.reverse, List.reverse_append .., List.reverse_reverse _⟩

/-- **A cut is made at the first place where the mark stands.** -/
theorem cut?_eq_some (hm : mark ≠ []) : cut? mark text = some (before, after) ↔
    text = before ++ (mark ++ after) ∧ ∀ k < before.length, ¬ mark <+: text.drop k := by
  induction text generalizing before with
  | nil => simp [cut?, hm]
  | cons c text ih =>
    rw [cut?]
    cases h : afterMark? mark (c :: text) with
    | some rest =>
      have hrest := afterMark?_eq_some.mp h
      simp only [Option.some.injEq, Prod.mk.injEq]
      constructor
      · rintro ⟨hb, ha⟩
        subst hb ha
        exact ⟨hrest, by simp⟩
      · rintro ⟨htext, hfirst⟩
        have hb : before = [] := by
          by_contra hb
          exact hfirst 0 (List.length_pos_iff.mpr hb) ⟨rest, hrest.symm⟩
        subst hb
        exact ⟨rfl, List.append_cancel_left (hrest.symm.trans htext)⟩
    | none =>
      have hnone := afterMark?_eq_none.mp h
      simp only [Option.map_eq_some_iff, Prod.mk.injEq, Prod.exists]
      constructor
      · rintro ⟨b, a, hcut, hb, ha⟩
        subst hb ha
        obtain ⟨htext, hfirst⟩ := ih.mp hcut
        refine ⟨by rw [htext]; rfl, ?_⟩
        intro k hk
        cases k with
        | zero => exact hnone
        | succ k => exact hfirst k (by simpa using hk)
      · rintro ⟨htext, hfirst⟩
        cases before with
        | nil => exact absurd ⟨after, htext.symm⟩ hnone
        | cons b before =>
          simp only [List.cons_append, List.cons.injEq] at htext
          obtain ⟨rfl, htext⟩ := htext
          refine ⟨before, after, ih.mpr ⟨htext, ?_⟩, rfl, rfl⟩
          intro k hk
          simpa using hfirst (k + 1) (by simpa using hk)

/-- A text is cut at a mark that stands in it. -/
theorem cut?_eq_none (hm : mark ≠ []) : cut? mark text = none ↔ ¬ mark <:+: text := by
  induction text with
  | nil => simp [cut?, hm]
  | cons c text ih =>
    rw [List.infix_cons_iff, not_or, ← ih, ← afterMark?_eq_none, cut?]
    cases afterMark? mark (c :: text) <;> simp

/-- A text is cut at the first of the characters that are the mark. -/
theorem cut?_char {c : Char} : cut? [c] text = some (before, after) ↔ text = before ++ c :: after ∧ c ∉ before := by
  rw [cut?_eq_some (List.cons_ne_nil _ _)]
  refine and_congr_right fun htext => ?_
  rw [htext]
  constructor
  · intro hfirst hc
    obtain ⟨front, back, rfl⟩ := List.append_of_mem hc
    refine hfirst front.length (by simp) ⟨back ++ c :: after, ?_⟩
    rw [List.append_assoc, List.drop_left]
    rfl
  · intro hc k hk hmark
    obtain ⟨rest, hrest⟩ := hmark
    rw [List.drop_append_of_le_length (Nat.le_of_lt hk), List.drop_eq_getElem_cons hk] at hrest
    exact hc ((List.cons.inj hrest).1 ▸ List.getElem_mem hk)

theorem cut?_char_eq_none {c : Char} : cut? [c] text = none ↔ c ∉ text := by
  rw [cut?_eq_none (List.cons_ne_nil _ _), List.singleton_infix_iff]

end Stache.Text
