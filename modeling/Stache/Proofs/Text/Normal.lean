import Stache.Proofs.Text.Tidy

/-!
# Compacted code is normal

Compaction is run over the code of every pass. What it makes of any code is normal, whether the code is well
formed or not, and normal code stays as it is.

* `units`, `dropBreaks_eq` -- code read as escapes and other characters, and the first pass in these words;
* `Unbroken` -- code in which no escape is a line break. The other passes keep it so: they take away blanks
  alone, and of the blanks behind a backslash one is left;
* `Normal`, `Normal.compacted_eq` -- code that stays as it is;
* `compact_normal` -- **what compaction makes of any code is normal**, and nothing but line breaks and blanks is
  lost.
-/

namespace Stache.Text

/-! ## 1. Escapes and other characters -/

/-- The code as escapes and other characters: a backslash takes the next character with it. -/
def units : List Char → List (List Char)
  | [] => []
  | '\\' :: c :: code => ['\\', c] :: units code
  | c :: code => [c] :: units code

/-- The escape of a line feed or a carriage return. -/
def isBreak (unit : List Char) : Bool :=
  unit == ['\\', 'n'] || unit == ['\\', 'r']

/-- **The first pass takes away the escapes that are line breaks.** -/
theorem dropBreaks_eq (code : List Char) :
    dropBreaks code = ((units code).filter fun unit => !isBreak unit).flatten := by
  fun_induction dropBreaks code with
  | case1 => rfl
  | case2 code ih | case3 code ih => exact ih
  | case4 c code hr hn ih =>
    have hkept : isBreak ['\\', c] = false := by
      simp only [isBreak, Bool.or_eq_false_iff, beq_eq_false_iff_ne, ne_eq, List.cons.injEq, true_and, and_true]
      exact ⟨hn, hr⟩
    rw [units, List.filter_cons_of_pos (by rw [hkept]; rfl), List.flatten_cons, ih]
    rfl
  | case5 c code _ _ hescape ih =>
    have hkept : isBreak [c] = false := by simp [isBreak]
    rw [units, List.filter_cons_of_pos (by rw [hkept]; rfl), List.flatten_cons, ih]
    · rfl
    · exact hescape

/-! ## 2. Code without line breaks -/

/-- No escape is a line break. -/
inductive Unbroken : List Char → Prop where
  | nil : Unbroken []
  /-- A backslash at the end takes nothing with it. -/
  | slash : Unbroken ['\\']
  | escape {c : Char} {code : List Char} (hn : c ≠ 'n') (hr : c ≠ 'r') (rest : Unbroken code) :
    Unbroken ('\\' :: c :: code)
  | char {c : Char} {code : List Char} (hslash : c ≠ '\\') (rest : Unbroken code) : Unbroken (c :: code)

theorem unbroken_dropBreaks (code : List Char) : Unbroken (dropBreaks code) := by
  fun_induction dropBreaks code with
  | case1 => exact .nil
  | case2 code ih | case3 code ih => exact ih
  | case4 c code hr hn ih => exact .escape hn hr ih
  | case5 c code _ _ hescape ih =>
    by_cases hslash : c = '\\'
    · cases code with
      | nil =>
        subst hslash
        exact .slash
      | cons d code => exact (hescape d code hslash rfl).elim
    · exact .char hslash ih

namespace Unbroken

variable {run code : List Char}

theorem dropBreaks_eq (h : Unbroken code) : dropBreaks code = code := by
  induction h with
  | nil | slash => rfl
  | escape hn hr _ ih =>
    rw [dropBreaks, ih]
    · exact hr
    · exact hn
  | char hslash _ ih => rw [dropBreaks_cons hslash, ih]

/-- No unit of it is a line break. -/
theorem isBreak_eq (h : Unbroken code) : ∀ unit ∈ units code, isBreak unit = false := by
  induction h with
  | nil => exact List.forall_mem_nil _
  | slash => exact List.forall_mem_singleton.mpr rfl
  | escape hn hr _ ih =>
    refine List.forall_mem_cons.mpr ⟨?_, ih⟩
    simp only [isBreak, Bool.or_eq_false_iff, beq_eq_false_iff_ne, ne_eq, List.cons.injEq, true_and, and_true]
    exact ⟨hn, hr⟩
  | char hslash _ ih =>
    rw [units]
    · exact List.forall_mem_cons.mpr ⟨by simp [isBreak], ih⟩
    · exact fun _ _ h => absurd h hslash

theorem tail {c : Char} (hslash : c ≠ '\\') (h : Unbroken (c :: code)) : Unbroken code := by
  cases h with
  | slash | escape => exact absurd rfl hslash
  | char _ rest => exact rest

/-- Blanks in front take nothing with them. -/
theorem blanks (hrun : AllBlank run) (h : Unbroken code) : Unbroken (run ++ code) := by
  induction run with
  | nil => exact h
  | cons c run ih =>
    obtain ⟨hc, hrun⟩ := List.forall_mem_cons.mp hrun
    refine .char ?_ (ih hrun)
    rintro rfl
    cases hc

end Unbroken

/-! ## 3. What the other passes keep -/

theorem AllBlank.cons {c : Char} {run : List Char} (h : AllBlank run) (hc : isBlank c = true) :
    AllBlank (c :: run) :=
  List.forall_mem_cons.mpr ⟨hc, h⟩

theorem AllBlank.unbroken {run : List Char} (h : AllBlank run) : Unbroken run := by
  rw [← List.append_nil run]
  exact .blanks h .nil

/-- An open run leaves a blank in front. -/
theorem squeezeAfter_open {c : Char} {run : List Char} (h : AllBlank (c :: run)) (code : List Char) :
    ∃ d rest, squeezeAfter (c :: run) code = d :: rest ∧ isBlank d = true := by
  have hdone {c : Char} {run : List Char} (h : AllBlank (c :: run)) :
      ∃ d rest, squeezedRun (c :: run) = d :: rest ∧ isBlank d = true := by
    cases run with
    | nil => exact ⟨c, [], rfl, h c List.mem_cons_self⟩
    | cons => exact ⟨' ', [], rfl, rfl⟩
  induction code generalizing c run with
  | nil => exact hdone h
  | cons e code ih =>
    rw [squeezeAfter]
    split
    · exact ih (h.cons ‹_›)
    · obtain ⟨d, rest, hd, hblank⟩ := hdone h
      exact ⟨d, _, by rw [hd, List.cons_append], hblank⟩

/-- **The second pass makes no line break**: a blank that a backslash has taken with it is squeezed with the
    blanks behind it, and one is left. -/
theorem Unbroken.squeezeAfter {run code : List Char} (h : Unbroken code) (hrun : AllBlank run) :
    Unbroken (squeezeAfter run code) := by
  induction h generalizing run with
  | nil => exact hrun.squeezed.unbroken
  | slash => exact .blanks hrun.squeezed .slash
  | @escape c code hn hr _ ih =>
    rw [Text.squeezeAfter, if_neg (by decide), Text.squeezeAfter]
    refine .blanks hrun.squeezed ?_
    split
    · have hone : AllBlank [c] := AllBlank.nil.cons ‹_›
      obtain ⟨d, rest, hd, hblank⟩ := squeezeAfter_open hone code
      have hrest : Unbroken (d :: rest) := hd ▸ ih hone
      have hne {e : Char} (he : isBlank e = false) : d ≠ e := by
        rintro rfl
        rw [he] at hblank
        cases hblank
      rw [hd]
      exact .escape (hne rfl) (hne rfl) (hrest.tail (hne rfl))
    · exact .escape hn hr (ih .nil)
  | char hslash _ ih =>
    rw [Text.squeezeAfter]
    split
    · exact ih (hrun.cons ‹_›)
    · exact .blanks hrun.squeezed (.char hslash (ih .nil))

/-- **The third pass makes no line break**: what it takes away stands behind a `>`. -/
theorem Unbroken.closeGapsAfter {isOpen : Bool} {held code : List Char} (h : Unbroken code)
    (hheld : AllBlank held) : Unbroken (closeGapsAfter isOpen held code) := by
  induction h generalizing isOpen held with
  | nil => exact hheld.unbroken
  | slash =>
    rw [closeGapsAfter_slash]
    exact .blanks hheld .slash
  | escape hn hr _ ih =>
    rw [closeGapsAfter_slash, closeGapsAfter_closed]
    exact .blanks hheld (.escape hn hr (ih .nil))
  | char hslash _ ih =>
    rw [Text.closeGapsAfter]
    split
    · rename_i hgap
      have hblank := (Bool.and_eq_true_iff.mp hgap).2
      exact ih (List.forall_mem_append.mpr ⟨hheld, AllBlank.nil.cons hblank⟩)
    · refine .blanks ?_ (.char hslash (ih .nil))
      split
      · exact .nil
      · exact hheld

theorem unbroken_compacted (code : List Char) : Unbroken (compacted code) :=
  .closeGapsAfter (.squeezeAfter (unbroken_dropBreaks code) .nil) .nil

/-! ## 4. Normal code -/

/-- Code that compaction leaves as it is. -/
structure Normal (code : List Char) : Prop where
  /-- No escape is a line break. -/
  unbroken : Unbroken code
  /-- No two blanks stand side by side. -/
  pairs : NoPairs isBlank code
  /-- No blank stands between `>` and `<`. -/
  gaps : NoGaps isBlank code

/-- **What compaction makes of any code is normal.** -/
theorem normal_compacted (code : List Char) : Normal (compacted code) := by
  refine ⟨unbroken_compacted code, noPairs_compacted code, ?_⟩
  rw [compacted, closeGaps, squeeze, ← squeezeOf_isBlank, ← closeGapsOf_isBlank]
  have hgaps : NoGaps isBlank (gapFront false ++ _) :=
    noGaps_closeGapsOf (fun hne => absurd rfl hne) (List.forall_mem_nil _)
      (noPairs_squeezeOf [] (dropBreaks code)) (by decide)
  exact hgaps

/-- **Normal code stays as it is.** -/
theorem Normal.compacted_eq {code : List Char} (h : Normal code) : compacted code = code := by
  have hsqueeze : squeezeOf isBlank [] code = code := squeezeOf_eq_self (List.forall_mem_nil _) h.pairs
  have hclose : closeGapsOf isBlank false [] code = code :=
    closeGapsOf_eq_self (fun hne => absurd rfl hne) (List.forall_mem_nil _) h.pairs h.gaps
  rw [compacted, h.unbroken.dropBreaks_eq, squeeze, ← squeezeOf_isBlank, hsqueeze, closeGaps,
    ← closeGapsOf_isBlank, hclose]

/-- Between `>` and `<` there is no run of blanks in normal code. -/
theorem Normal.no_gap {code gap : List Char} (h : Normal code) (hgap : AllBlank gap) (hne : gap ≠ []) :
    ¬ '>' :: (gap ++ ['<']) <:+: code := by
  intro hin
  have hpairs : NoPairs isBlank ('>' :: (gap ++ ['<'])) := List.IsChain.infix h.pairs hin
  obtain rfl | ⟨c, rfl⟩ := hpairs.tail.eq_nil_or_one hgap
  · exact hne rfl
  · exact h.gaps c (hgap c List.mem_cons_self) hin

/-- **What compaction makes of any code is normal**, and no more than that is done. Read as escapes and other
    characters it holds no escape of a line break; no two blanks stand side by side, and none between `>` and
    `<`. The characters that are no blanks are those of the code without the escapes of line breaks, in order.
    And compaction leaves it as it is. -/
theorem compact_normal (code : String) :
    (∀ unit ∈ units (compact code).toList, isBreak unit = false) ∧
      (∀ c d, isBlank c = true → isBlank d = true → ¬ [c, d] <:+: (compact code).toList) ∧
      (∀ gap, AllBlank gap → gap ≠ [] → ¬ '>' :: (gap ++ ['<']) <:+: (compact code).toList) ∧
      (compact code).toList.filter (fun c => !isBlank c) =
        ((units code.toList).filter fun unit => !isBreak unit).flatten.filter (fun c => !isBlank c) ∧
      compact (compact code) = compact code := by
  have hcode : (compact code).toList = compacted code.toList := String.toList_ofList
  have hnormal := normal_compacted code.toList
  rw [hcode]
  refine ⟨hnormal.unbroken.isBreak_eq, ?_, fun gap hgap hne => hnormal.no_gap hgap hne, ?_, ?_⟩
  · intro c d hc hd hin
    have hpair : NoPairs isBlank [c, d] := List.IsChain.infix hnormal.pairs hin
    exact (List.isChain_cons_cons.mp hpair).1 ⟨hc, hd⟩
  · rw [← dropBreaks_eq]
    exact (visible_closeGapsAfter .nil _).trans (visible_squeezeAfter .nil _)
  · rw [compact, hcode]
    exact congrArg String.ofList hnormal.compacted_eq

/-- A blank behind a backslash is not lost, so that the backslash does not take an `n` with it. -/
example : compacted "\\ \\n  n> \\r <\\".toList = "\\ n><\\".toList := by decide

end Stache.Text
