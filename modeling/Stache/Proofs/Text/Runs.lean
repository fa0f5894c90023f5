import Mathlib.Data.List.TakeWhile
import Stache.Text.Blank
import Stache.Text.Digit

/-!
# Runs of characters

A text begins with a run of characters of one sort, and goes on with another one.

* `takeWhile_run` -- the run is taken, and what follows is left;
* `run_takeWhile` -- **every text begins with such a run**;
* `isDigit_of_isBlank` -- no blank is a digit.
-/

namespace Stache.Text

variable {p : Char → Bool} {run rest text : List Char} {c : Char}

/-- A run of characters is taken up to where it ends. -/
theorem takeWhile_run (h : ∀ c ∈ run, p c = true) (hend : ∀ c ∈ rest.head?, p c = false) :
    (run ++ rest).takeWhile p = run ∧ (run ++ rest).dropWhile p = rest := by
  have hrest : rest.takeWhile p = [] ∧ rest.dropWhile p = rest := by
    cases rest with
    | nil => exact ⟨rfl, rfl⟩
    | cons c rest =>
      have hc := hend c rfl
      exact ⟨List.takeWhile_cons_of_neg (by simp [hc]), List.dropWhile_cons_of_neg (by simp [hc])⟩
  rw [List.takeWhile_append_of_pos h, List.dropWhile_append_of_pos h, hrest.1, hrest.2, List.append_nil]
  exact ⟨rfl, rfl⟩

/-- Every text is the run that it begins with, and a rest that does not go on with it. -/
theorem run_takeWhile (p : Char → Bool) (text : List Char) :
    text = text.takeWhile p ++ text.dropWhile p ∧ (∀ c ∈ text.takeWhile p, p c = true) ∧
      ∀ c ∈ (text.dropWhile p).head?, p c = false := by
  refine ⟨(List.takeWhile_append_dropWhile ..).symm, fun c hc => List.mem_takeWhile_imp hc, fun c hc => ?_⟩
  have hfirst := List.head?_dropWhile_not p text
  rwa [Option.mem_def.mp hc] at hfirst

/-- No blank is a digit. -/
theorem isDigit_of_isBlank (h : isBlank c = true) : isDigit c = false := by
  have hpoints : ∀ n ∈ List.range' 0x09 5 ++ List.range' 0x2000 11 ++
      [0x20, 0x85, 0xA0, 0x1680, 0x2028, 0x2029, 0x202F, 0x205F, 0x3000],
      digitRanges.any (fun range => range.1 ≤ n && n ≤ range.2) = false := by
    decide +kernel
  refine hpoints c.toNat ?_
  simp only [isBlank, Bool.or_eq_true, Bool.and_eq_true, decide_eq_true_eq, beq_iff_eq] at h
  simp only [List.mem_append, List.mem_range'_1, List.mem_cons, List.not_mem_nil, or_false]
  omega

end Stache.Text
