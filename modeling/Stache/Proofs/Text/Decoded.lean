import Mathlib.Data.List.SplitBy
import Stache.Json.Reading
import Stache.Proofs.Text.Tidy

/-!
# The value of a literal, before and after compaction

Compaction works on the code of a literal, with all its escapes, and what counts is the text that the literal
stands for.

* `literalText?` -- the text that a string literal stands for, if the code is one literal and nothing else;
* `literalText?_quote` -- **the literal of a text stands for that text**;
* `runsSqueezed`, `gapsClosed` -- runs of blanks and gaps between angle brackets, told by what stands next to a
  character, and `tidied_eq`, what compaction does to a text in these words;
* `compact_quote_decoded` -- **what a compacted literal stands for**.
-/

namespace Stache.Text

/-! ## 1. Reading a literal -/

/-- The text of a literal, read behind its opening quote up to the quote at the end of the code. Read are the
    escapes of one letter and those of four hexadecimal digits, surrogates apart. There is no text if the code
    goes on behind the closing quote or has none, if a character stands in it that no literal may hold as it
    is, or if there is any other escape. -/
def literalRest? : List Char → Option (List Char)
  | ['"'] => some []
  | '\\' :: 'u' :: a :: b :: c :: d :: code =>
    match Json.hexUnit? a b c d with
    | some unit =>
      if Json.isHighSurrogate unit || Json.isLowSurrogate unit then none
      else (literalRest? code).map (Char.ofNat unit :: ·)
    | none => none
  | '\\' :: c :: code =>
    match Json.shortEscape? c with
    | some d => (literalRest? code).map (d :: ·)
    | none => none
  | c :: code =>
    if c = '"' || c = '\\' || isRaw c then none else (literalRest? code).map (c :: ·)
  | [] => none

/-- The text that a string literal stands for, if the code is one closed literal and nothing else. -/
def literalText? (code : String) : Option String :=
  match code.toList with
  | '"' :: code => (literalRest? code).map String.ofList
  | _ => none

theorem hexValue?_hexDigit : ∀ n < 16, Json.hexValue? (hexDigit n) = some n := by
  decide

theorem hexUnit?_hex4 {n : Nat} (h : n < 65536) :
    Json.hexUnit? (hexDigit (n / 4096 % 16)) (hexDigit (n / 256 % 16)) (hexDigit (n / 16 % 16))
      (hexDigit (n % 16)) = some n := by
  have hdigit (m : Nat) : Json.hexValue? (hexDigit (m % 16)) = some (m % 16) :=
    hexValue?_hexDigit _ (Nat.mod_lt m (by decide))
  simp only [Json.hexUnit?, hdigit, Option.bind_eq_bind, Option.bind_some, Option.pure_def, Option.some.injEq]
  omega

/-- **A character is read back.** -/
theorem literalRest?_escapeChar (c : Char) (code : List Char) :
    literalRest? (escapeChar c ++ code) = (literalRest? code).map (c :: ·) := by
  fun_cases escapeChar c with
  | case1 | case2 | case3 | case4 | case5 | case6 | case7 => rfl
  | case8 _ _ _ _ _ _ _ _ hraw =>
    simp only [Bool.or_eq_true, decide_eq_true_eq, beq_iff_eq] at hraw
    have hunit := hexUnit?_hex4 (n := c.toNat) (by omega)
    have hsurrogate : (Json.isHighSurrogate c.toNat || Json.isLowSurrogate c.toNat) = false := by
      simp only [Json.isHighSurrogate, Json.isLowSurrogate, Bool.or_eq_false_iff, Bool.and_eq_false_iff,
        decide_eq_false_iff_not]
      omega
    simp only [hex4, List.cons_append, List.nil_append, literalRest?, hunit, hsurrogate]
    rw [Char.ofNat_toNat]
    rfl
  | case9 _ hquote hslash _ _ _ _ _ hraw =>
    have hplain : (c = '"' || c = '\\' || isRaw c) = false := by
      rw [isRaw, eq_false_of_ne_true hraw, decide_eq_false hquote, decide_eq_false hslash]
      rfl
    rw [List.singleton_append, literalRest?, hplain]
    · rfl
    · exact fun hc => absurd hc hquote
    · exact fun _ _ _ _ _ hc => absurd hc hslash
    · exact fun _ _ hc => absurd hc hslash

/-- **The literal of a text stands for that text.** -/
theorem literalText?_quote (text : String) : literalText? (quote text) = some text := by
  have hrest (text : List Char) : literalRest? (text.flatMap escapeChar ++ ['"']) = some text := by
    induction text with
    | nil => rfl
    | cons c text ih => rw [List.flatMap_cons, List.append_assoc, literalRest?_escapeChar, ih, Option.map_some]
  rw [literalText?, quote, String.toList_ofList]
  show (literalRest? (text.toList.flatMap escapeChar ++ ['"'])).map String.ofList = some text
  rw [hrest, Option.map_some, String.ofList_toList]

/-! ## 2. The passes, told by what stands next to a character -/

section Kinds

variable (p : Char → Bool)

/-- The text with one space where two or more blanks stand side by side. -/
def runsSqueezed (text : List Char) : List Char :=
  (text.splitBy fun c d => p c && p d).flatMap fun run => if 2 ≤ run.length then [' '] else run

/-- The first character that is no blank. -/
def firstFirm? (text : List Char) : Option Char :=
  (text.dropWhile p).head?

/-- The text without the blanks that have a `>` for the nearest other character before them and a `<` for the
    nearest one behind them. What stands before the text is given backwards. -/
def gapsClosed (before : List Char) : List Char → List Char
  | [] => []
  | c :: text =>
    if p c && firstFirm? p before == some '>' && firstFirm? p text == some '<' then
      gapsClosed (c :: before) text
    else c :: gapsClosed (c :: before) text

variable {p}

theorem squeezedRun_eq (run : List Char) : squeezedRun run = if 2 ≤ run.length then [' '] else run := by
  rcases run with _ | ⟨c, _ | ⟨d, run⟩⟩
  · rfl
  · rfl
  · exact (if_pos (by simp)).symm

theorem squeezedRun_reverse (run : List Char) : squeezedRun run.reverse = squeezedRun run := by
  rcases run with _ | ⟨c, _ | ⟨d, run⟩⟩
  · rfl
  · rfl
  · rw [squeezedRun_eq, squeezedRun_eq, List.length_reverse, if_pos (by simp), if_pos (by simp)]

/-- Blanks alone are one run. -/
theorem runsSqueezed_blanks {run : List Char} (hrun : ∀ c ∈ run, p c = true) :
    runsSqueezed p run = squeezedRun run := by
  cases run with
  | nil => rfl
  | cons c run =>
    have hone : (c :: run).splitBy (fun c d => p c && p d) = [c :: run] := by
      refine List.splitBy_of_isChain (List.cons_ne_nil c run) (List.Pairwise.isChain ?_)
      refine List.pairwise_of_forall_mem_list fun d hd e he => ?_
      rw [hrun d hd, hrun e he, Bool.and_true]
    rw [runsSqueezed, hone, List.flatMap_singleton, squeezedRun_eq]

/-- What is no blank ends a run, and begins none. -/
theorem runsSqueezed_append {c : Char} (hc : ¬ p c = true) (before text : List Char) :
    runsSqueezed p (before ++ c :: text) = runsSqueezed p before ++ c :: runsSqueezed p text := by
  have hfirst : (c :: text).splitBy (fun c d => p c && p d) = [c] :: text.splitBy fun c d => p c && p d := by
    rw [← List.singleton_append, List.splitBy_append]
    · rfl
    · intro d hd e _
      cases hd
      rw [List.getLast_singleton, eq_false_of_ne_true hc, Bool.false_and]
  have hlast : (before ++ c :: text).splitBy (fun c d => p c && p d) =
      before.splitBy (fun c d => p c && p d) ++ (c :: text).splitBy fun c d => p c && p d := by
    refine List.splitBy_append fun d _ e he => ?_
    cases he
    rw [eq_false_of_ne_true hc, Bool.and_false]
  rw [runsSqueezed, hlast, hfirst, List.flatMap_append, List.flatMap_cons]
  rfl

theorem squeezeOf_eq {run : List Char} (hrun : ∀ c ∈ run, p c = true) (text : List Char) :
    squeezeOf p run text = runsSqueezed p (run.reverse ++ text) := by
  have hdone {run : List Char} (hrun : ∀ c ∈ run, p c = true) :
      runsSqueezed p run.reverse = squeezedRun run := by
    rw [runsSqueezed_blanks fun c hc => hrun c (List.mem_reverse.mp hc), squeezedRun_reverse]
  induction text generalizing run with
  | nil => rw [squeezeOf, List.append_nil, hdone hrun]
  | cons c text ih =>
    rw [squeezeOf]
    split
    · rw [ih (List.forall_mem_cons.mpr ⟨‹_›, hrun⟩), List.reverse_cons, List.append_assoc,
        List.singleton_append]
    · rw [runsSqueezed_append ‹_›, hdone hrun, ih (List.forall_mem_nil _)]
      rfl

theorem firstFirm?_blank {c : Char} (hc : p c = true) (text : List Char) :
    firstFirm? p (c :: text) = firstFirm? p text := by
  rw [firstFirm?, List.dropWhile_cons_of_pos hc, firstFirm?]

theorem firstFirm?_firm {c : Char} (hc : ¬ p c = true) (text : List Char) :
    firstFirm? p (c :: text) = some c := by
  rw [firstFirm?, List.dropWhile_cons_of_neg hc, List.head?_cons]

/-- The pass that closes gaps knows all that is told: `isOpen` is what stands before the blanks that are held,
    and what comes next decides about them. -/
theorem closeGapsOf_eq (hclose : ¬ p '>' = true) {isOpen : Bool} {held before : List Char}
    (ho : held ≠ [] → isOpen = true) (hopen : (firstFirm? p before == some '>') = isOpen) (text : List Char) :
    closeGapsOf p isOpen held text =
      (if isOpen && firstFirm? p text == some '<' then [] else held) ++ gapsClosed p before text := by
  induction text generalizing isOpen held before with
  | nil => rw [closeGapsOf, gapsClosed, List.append_nil, firstFirm?, List.dropWhile_nil]; simp
  | cons c text ih =>
    rw [closeGapsOf, gapsClosed, hopen]
    by_cases hc : p c = true
    · have hnext : (firstFirm? p (c :: before) == some '>') = isOpen := by rw [firstFirm?_blank hc, hopen]
      rw [firstFirm?_blank hc, hc, Bool.and_true, Bool.true_and]
      cases isOpen with
      | true =>
        rw [if_pos rfl, ih (fun _ => rfl) hnext]
        split
        · rfl
        · rw [List.append_assoc]
          rfl
      | false =>
        obtain rfl : held = [] := Decidable.byContradiction fun hne => Bool.false_ne_true (ho hne)
        have hgt : (c == '>') = false := beq_false_of_ne fun e => hclose (e ▸ hc)
        rw [if_neg Bool.false_ne_true, hgt, ih (fun hne => absurd rfl hne) hnext]
        simp
    · have hnext : (firstFirm? p (c :: before) == some '>') = (c == '>') := by
        rw [firstFirm?_firm hc, Option.some_beq_some]
      have hfront : (if c = '<' then [] else held) =
          if isOpen && (some c == some '<') then [] else held := by
        cases isOpen with
        | true => simp
        | false =>
          obtain rfl : held = [] := Decidable.byContradiction fun hne => Bool.false_ne_true (ho hne)
          rw [ite_self, ite_self]
      rw [firstFirm?_firm hc, eq_false_of_ne_true hc, Bool.and_false, if_neg Bool.false_ne_true,
        ih (fun hne => absurd rfl hne) hnext, hfront, ite_self]
      rfl

theorem closeGapsOf_nil (hclose : ¬ p '>' = true) (text : List Char) :
    closeGapsOf p false [] text = gapsClosed p [] text := by
  have hnone : (firstFirm? p [] == some '>') = false := rfl
  rw [closeGapsOf_eq hclose (fun hne => absurd rfl hne) hnone text, ite_self, List.nil_append]

end Kinds

/-- **What compaction makes of a text**, in these words: line breaks go, then runs of blanks are squeezed, then
    gaps are closed. -/
theorem tidied_eq (text : List Char) : tidied text =
    gapsClosed isHeld [] (runsSqueezed isHeld (text.filter fun c => c != '\n' && c != '\r')) := by
  have hbreak (c : Char) : (!isLineBreak c) = (c != '\n' && c != '\r') := by
    rw [isLineBreak, Bool.not_or]
    rfl
  rw [tidied, closeGapsOf_nil (by decide), squeezeOf_eq (List.forall_mem_nil _), funext hbreak]
  rfl

/-! ## 3. The value of a compacted literal -/

/-- **What a literal stands for, before and after compaction.** The literal of a text stands for the text.
    Compacted it is a closed literal still, and it stands for the text without line feeds and carriage returns,
    in which then each run of two or more blanks is one space, and then those between `>` and `<` are gone.
    Blanks are here those that are written as they are. -/
theorem compact_quote_decoded (text : String) :
    literalText? (quote text) = some text ∧
      literalText? (compact (quote text)) = some (String.ofList (gapsClosed isHeld []
        (runsSqueezed isHeld (text.toList.filter fun c => c != '\n' && c != '\r')))) := by
  refine ⟨literalText?_quote text, ?_⟩
  rw [compact_quote, literalText?_quote, tidy, tidied_eq]

/-- A removed line feed brings two blanks together, a tab is written as an escape and stays. -/
example : gapsClosed isHeld [] (runsSqueezed isHeld ("> \n <\t \\n".toList.filter fun c => c != '\n' && c != '\r')) =
    "><\t \\n".toList := by decide

end Stache.Text
