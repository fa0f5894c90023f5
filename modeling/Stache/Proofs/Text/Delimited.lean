import Stache.Text.Quoted

/-!
# Writings that tell where they end

A way of writing is delimited when what is written can be told from whatever stands behind it. Code made of
such parts can be read in one way only.

* `Delimited`, `Delimited.between`, `Delimited.stopped` -- such ways of writing;
* `Delimited.flatMap_stopped`, `Delimited.flatMap_inj` -- lists of them;
* `delimited_escapeChar`, `delimited_quoted` -- **a string literal tells its text and where it ends**;
* `toDigits_inj` -- so do the digits of a number.
-/

namespace Stache.Text

/-! ## 1. Delimited writings -/

section

variable {α : Type} {write : α → List Char}

/-- What is written tells what was meant and where it ends, whatever stands behind it. -/
def Delimited (write : α → List Char) : Prop :=
  ∀ ⦃a b : α⦄ ⦃rest rest' : List Char⦄, write a ++ rest = write b ++ rest' → a = b ∧ rest = rest'

theorem Delimited.inj (h : Delimited write) {a b : α} (he : write a = write b) : a = b :=
  (h (congrArg (· ++ []) he)).1

theorem Delimited.between (h : Delimited write) (front behind : List Char) :
    Delimited fun a => front ++ (write a ++ behind) := by
  intro a b rest rest' he
  simp only [List.append_assoc] at he
  obtain ⟨hab, he⟩ := h (List.append_cancel_left he)
  exact ⟨hab, List.append_cancel_left he⟩

/-- A mark that is not part of what is written tells where it ends. -/
theorem Delimited.stopped {stop : Char} (hinj : ∀ a b, write a = write b → a = b)
    (hstop : ∀ a, stop ∉ write a) : Delimited fun a => write a ++ [stop] := by
  intro a b rest rest' he
  simp only [List.append_assoc, List.singleton_append] at he
  have hkeep (a : α) : ∀ c ∈ write a, (c != stop) = true := by
    intro c hc
    simp only [bne_iff_ne, ne_eq]
    intro e
    exact hstop a (e ▸ hc)
  have htake (a : α) (rest : List Char) : (write a ++ stop :: rest).takeWhile (· != stop) = write a := by
    rw [List.takeWhile_append_of_pos (hkeep a)]
    simp
  have hwritten : write a = write b := by
    rw [← htake a rest, he, htake]
  rw [hwritten] at he
  exact ⟨hinj a b hwritten, (List.cons.inj (List.append_cancel_left he)).2⟩

/-- A list ends at a mark that none of its elements begins with. -/
theorem Delimited.flatMap_stopped {stop : Char} (h : Delimited write)
    (hstop : ∀ a rest rest', write a ++ rest ≠ stop :: rest') :
    Delimited fun elements : List α => elements.flatMap write ++ [stop] := by
  intro elements others rest rest' he
  simp only [List.append_assoc, List.singleton_append] at he
  induction elements generalizing others with
  | nil =>
    cases others with
    | nil => exact ⟨rfl, (List.cons.inj he).2⟩
    | cons b others =>
      rw [List.flatMap_cons, List.append_assoc] at he
      exact absurd he.symm (hstop b _ _)
  | cons a elements ih =>
    cases others with
    | nil =>
      rw [List.flatMap_cons, List.append_assoc] at he
      exact absurd he (hstop a _ _)
    | cons b others =>
      rw [List.flatMap_cons, List.flatMap_cons, List.append_assoc, List.append_assoc] at he
      obtain ⟨hab, hothers⟩ := h he
      obtain ⟨hsame, hrest⟩ := ih hothers
      exact ⟨by rw [hab, hsame], hrest⟩

/-- Nothing need stand behind a list. -/
theorem Delimited.flatMap_inj (h : Delimited write) (hne : ∀ a, write a ≠ []) {elements others : List α}
    (he : elements.flatMap write = others.flatMap write) : elements = others := by
  induction elements generalizing others with
  | nil =>
    cases others with
    | nil => rfl
    | cons b others => exact absurd (List.append_eq_nil_iff.mp he.symm).1 (hne b)
  | cons a elements ih =>
    cases others with
    | nil => exact absurd (List.append_eq_nil_iff.mp he).1 (hne a)
    | cons b others =>
      rw [List.flatMap_cons, List.flatMap_cons] at he
      obtain ⟨hab, hothers⟩ := h he
      rw [hab, ih hothers]

end

/-! ## 2. String literals -/

/-- The value of a hexadecimal digit. -/
def hexValue (c : Char) : Nat :=
  if c.isDigit then c.toNat - 48 else c.toNat - 87

theorem hexValue_hexDigit : ∀ n < 16, hexValue (hexDigit n) = n := by
  decide

/-- The value of four hexadecimal digits. -/
def hexValue4 (a b c d : Char) : Nat :=
  ((hexValue a * 16 + hexValue b) * 16 + hexValue c) * 16 + hexValue d

/-- Reads one character of a string literal. -/
def readChar? : List Char → Option (Char × List Char)
  | '\\' :: 'u' :: a :: b :: c :: d :: rest => some (Char.ofNat (hexValue4 a b c d), rest)
  | '\\' :: 'n' :: rest => some ('\n', rest)
  | '\\' :: 'r' :: rest => some ('\r', rest)
  | '\\' :: 't' :: rest => some ('\t', rest)
  | '\\' :: 'b' :: rest => some ('\x08', rest)
  | '\\' :: 'f' :: rest => some ('\x0c', rest)
  | '\\' :: c :: rest => some (c, rest)
  | c :: rest => some (c, rest)
  | [] => none

/-- **A character is read back.** -/
theorem readChar?_escapeChar (c : Char) (rest : List Char) :
    readChar? (escapeChar c ++ rest) = some (c, rest) := by
  fun_cases escapeChar c with
  | case1 => rfl
  | case2 => rfl
  | case3 => rfl
  | case4 => rfl
  | case5 => rfl
  | case6 => rfl
  | case7 => rfl
  | case8 _ _ _ _ _ _ _ _ hcode =>
    have hsmall : c.toNat < 65536 := by
      simp only [Bool.or_eq_true, decide_eq_true_eq, beq_iff_eq] at hcode
      omega
    have hvalue : hexValue4 (hexDigit (c.toNat / 4096 % 16)) (hexDigit (c.toNat / 256 % 16))
        (hexDigit (c.toNat / 16 % 16)) (hexDigit (c.toNat % 16)) = c.toNat := by
      simp only [hexValue4, hexValue_hexDigit _ (Nat.mod_lt _ (by decide : 0 < 16))]
      omega
    show some (Char.ofNat _, rest) = _
    rw [hvalue, Char.ofNat_toNat]
  | case9 _ _ hslash =>
    rw [List.singleton_append, readChar?]
    all_goals intros; contradiction

theorem delimited_escapeChar : Delimited escapeChar := by
  intro a b rest rest' he
  have hread := readChar?_escapeChar a rest
  rw [he, readChar?_escapeChar] at hread
  simpa [eq_comm] using hread

/-- No character is written by a quote. -/
theorem escapeChar_ne_quote (c : Char) (rest rest' : List Char) : escapeChar c ++ rest ≠ '"' :: rest' := by
  fun_cases escapeChar c with
  | case9 _ hquote =>
    intro e
    exact hquote (List.cons.inj e).1
  | _ => simp

/-- **A string literal tells its text and where it ends.** -/
theorem delimited_quoted : Delimited quoted := by
  intro text other rest rest' he
  exact delimited_escapeChar.flatMap_stopped escapeChar_ne_quote (List.cons.inj he).2

/-! ## 3. Numbers -/

theorem toDigits_inj {m n : Nat} (h : Nat.toDigits 10 m = Nat.toDigits 10 n) : m = n := by
  have := congrArg (Nat.ofDigitChars 10 · 0) h
  simpa [Nat.ofDigitChars_ten_toDigits] using this

end Stache.Text
