import Stache.Proofs.Outcome
import Stache.Proofs.Spec.Filled
import Stache.Proofs.Template.Spelling
import Stache.Proofs.Text.Runs

/-!
# Numbers in generated code

A number of a template is written into the code as it is spelled. Where literals of code are read strictly, a
number must not begin with a zero that other digits follow; templates may have such numbers. All other numbers
are literals, and those of the number that is spelled.

* `NumberSpelling` -- the numbers of a template, and what they spell;
* `SignedLiteral` -- the decimal literals of strict code, with their values;
* `NumberSpelling.signedLiteral_iff` -- **a number is a literal unless it begins with a zero too many**, and has
  the value that it spells;
* `number_emitted` -- **every number is written into the code as it is spelled**;
* `octal_emitted` -- one that is no literal.
-/

namespace Stache

/-! ## 1. What numbers spell -/

/-- The number that is spelled by digits, and by digits behind a point. -/
def decimalValue (whole fraction : List Char) : Rat :=
  mkRat (Int.ofNat (Nat.ofDigitChars 10 (whole ++ fraction) 0)) (Nat.pow 10 fraction.length)

/-- A number of a template: an optional minus, digits, and digits behind a point. The digits or the point may be
    missing. -/
structure NumberSpelling where
  /-- There is a minus. -/
  isNegative : Bool
  /-- The digits in front of the point. -/
  whole : List Char
  /-- The digits behind the point; without a point there are none. -/
  fraction : List Char
  /-- They are digits. -/
  digits : ∀ c ∈ whole ++ fraction, c.isDigit = true
  /-- There are some. -/
  ne_nil : whole ++ fraction ≠ []

namespace NumberSpelling

variable (n : NumberSpelling)

/-- The point and what stands behind it. -/
def tail : List Char :=
  if n.fraction = [] then [] else '.' :: n.fraction

/-- The number without its minus. -/
def unsigned : List Char :=
  n.whole ++ n.tail

/-- How the number is spelled. -/
def text : List Char :=
  if n.isNegative then '-' :: n.unsigned else n.unsigned

/-- The number that is spelled. -/
def value : Rat :=
  if n.isNegative then Rat.neg (decimalValue n.whole n.fraction) else decimalValue n.whole n.fraction

/-- No digits follow a zero in front. -/
def IsStrict : Prop :=
  n.whole.head? = some '0' → n.whole = ['0']

end NumberSpelling

/-! ## 2. Literals of code -/

/-- A decimal literal of strict code without an exponent, and its value. In front of a point stands `0`, or
    digits that begin with another one, or nothing if digits stand behind the point. -/
inductive DecimalLiteral : List Char → Rat → Prop
  /-- An integer. -/
  | integer {whole : List Char} : IsDigits whole → (whole.head? = some '0' → whole = ['0']) →
    DecimalLiteral whole (decimalValue whole [])
  /-- An integer, a point, and more digits or none. -/
  | pointed {whole fraction : List Char} : IsDigits whole → (whole.head? = some '0' → whole = ['0']) →
    (∀ c ∈ fraction, c.isDigit = true) →
    DecimalLiteral (whole ++ '.' :: fraction) (decimalValue whole fraction)
  /-- A point and digits. -/
  | fraction {fraction : List Char} : IsDigits fraction →
    DecimalLiteral ('.' :: fraction) (decimalValue [] fraction)

/-- A literal, or a minus and a literal. -/
inductive SignedLiteral : List Char → Rat → Prop
  /-- Without a minus. -/
  | plain {text : List Char} {value : Rat} : DecimalLiteral text value → SignedLiteral text value
  /-- With a minus. -/
  | negated {text : List Char} {value : Rat} : DecimalLiteral text value →
    SignedLiteral ('-' :: text) (Rat.neg value)

/-- What stands in front of the point of a literal, and behind it. -/
theorem DecimalLiteral.split {text : List Char} {value : Rat} (h : DecimalLiteral text value) :
    ((text.takeWhile Char.isDigit).head? = some '0' → text.takeWhile Char.isDigit = ['0']) ∧
      value = decimalValue (text.takeWhile Char.isDigit) (text.dropWhile Char.isDigit).tail := by
  cases h with
  | integer hwhole hstrict =>
    obtain ⟨htake, hdrop⟩ := @Text.takeWhile_run _ _ [] hwhole.2 nofun
    rw [List.append_nil] at htake hdrop
    rw [htake, hdrop]
    exact ⟨hstrict, rfl⟩
  | @pointed whole fraction hwhole hstrict _ =>
    obtain ⟨htake, hdrop⟩ := @Text.takeWhile_run _ _ ('.' :: fraction) hwhole.2 (by rintro _ ⟨⟩; rfl)
    rw [htake, hdrop]
    exact ⟨hstrict, rfl⟩
  | fraction _ => exact ⟨nofun, rfl⟩

/-- A literal does not begin with a minus. -/
theorem DecimalLiteral.head?_ne {text : List Char} {value : Rat} (h : DecimalLiteral text value) :
    text.head? ≠ some '-' := by
  have hdigits {digits : List Char} (hd : IsDigits digits) (more : List Char) :
      (digits ++ more).head? ≠ some '-' := by
    obtain ⟨c, rest, rfl⟩ := List.exists_cons_of_ne_nil hd.1
    rintro ⟨⟩
    exact absurd (hd.2 '-' List.mem_cons_self) (by decide)
  cases h with
  | integer hwhole _ =>
    have hne := hdigits hwhole []
    rwa [List.append_nil] at hne
  | pointed hwhole _ _ => exact hdigits hwhole _
  | fraction _ => exact nofun

namespace NumberSpelling

variable (n : NumberSpelling)

theorem whole_digits : ∀ c ∈ n.whole, c.isDigit = true :=
  fun c hc => n.digits c (List.mem_append_left _ hc)

theorem fraction_digits : ∀ c ∈ n.fraction, c.isDigit = true :=
  fun c hc => n.digits c (List.mem_append_right _ hc)

/-- The digits in front of the point, and what stands behind it. -/
theorem split_unsigned : n.unsigned.takeWhile Char.isDigit = n.whole ∧
    (n.unsigned.dropWhile Char.isDigit).tail = n.fraction := by
  have hpoint : ∀ c ∈ n.tail.head?, c.isDigit = false := by
    unfold tail
    split
    · exact nofun
    · rintro _ ⟨⟩
      rfl
  obtain ⟨htake, hdrop⟩ := Text.takeWhile_run n.whole_digits hpoint
  refine ⟨htake, ?_⟩
  rw [unsigned, hdrop, tail]
  split
  · exact (‹n.fraction = []›).symm
  · rfl

/-- **A number without its minus is a literal** unless it begins with a zero too many. -/
theorem decimalLiteral_of_isStrict (h : n.IsStrict) :
    DecimalLiteral n.unsigned (decimalValue n.whole n.fraction) := by
  unfold unsigned tail
  by_cases hwhole : n.whole = []
  · have hfraction : n.fraction ≠ [] := fun e => n.ne_nil (by rw [hwhole, e]; rfl)
    rw [if_neg hfraction, hwhole]
    exact .fraction ⟨hfraction, n.fraction_digits⟩
  · have hdigits : IsDigits n.whole := ⟨hwhole, n.whole_digits⟩
    by_cases hfraction : n.fraction = []
    · rw [if_pos hfraction, hfraction, List.append_nil]
      exact .integer hdigits h
    · rw [if_neg hfraction]
      exact .pointed hdigits h n.fraction_digits

/-- Only such numbers are. -/
theorem isStrict_of_decimalLiteral {value : Rat} (h : DecimalLiteral n.unsigned value) :
    n.IsStrict ∧ value = decimalValue n.whole n.fraction := by
  obtain ⟨hstrict, hvalue⟩ := h.split
  rw [n.split_unsigned.1] at hstrict hvalue
  rw [n.split_unsigned.2] at hvalue
  exact ⟨hstrict, hvalue⟩

/-- Behind a minus there is none. -/
theorem head?_unsigned : n.unsigned.head? ≠ some '-' := by
  have hwhole := n.whole_digits
  unfold unsigned tail
  cases hcases : n.whole with
  | nil =>
    split
    · exact nofun
    · rintro ⟨⟩
  | cons c rest =>
    rw [hcases] at hwhole
    rintro ⟨⟩
    exact absurd (hwhole '-' List.mem_cons_self) (by decide)

/-- **A number is a literal unless it begins with a zero too many**, and has the value that it spells. -/
theorem signedLiteral_iff {value : Rat} : SignedLiteral n.text value ↔ n.IsStrict ∧ value = n.value := by
  have hhead := n.head?_unsigned
  unfold text NumberSpelling.value
  cases n.isNegative with
  | true =>
    constructor
    · intro h
      cases h with
      | plain hliteral => exact absurd rfl hliteral.head?_ne
      | negated hliteral =>
        obtain ⟨hstrict, hvalue⟩ := n.isStrict_of_decimalLiteral hliteral
        exact ⟨hstrict, congrArg Rat.neg hvalue⟩
    · rintro ⟨hstrict, rfl⟩
      exact .negated (n.decimalLiteral_of_isStrict hstrict)
  | false =>
    constructor
    · intro h
      change SignedLiteral n.unsigned value at h
      generalize hunsigned : n.unsigned = unsigned at h hhead
      cases h with
      | plain hliteral => exact n.isStrict_of_decimalLiteral (hunsigned ▸ hliteral)
      | negated _ => exact absurd rfl hhead
    · rintro ⟨hstrict, rfl⟩
      exact .plain (n.decimalLiteral_of_isStrict hstrict)

end NumberSpelling

/-! ## 3. Numbers of a template -/

namespace Token

/-- A fraction is empty, or a point and digits. -/
theorem fraction_cases (text : List Char) :
    fraction text = [] ∨ ∃ digits, fraction text = '.' :: digits ∧ IsDigits digits := by
  unfold fraction
  split
  · rename_i c rest
    split
    · rename_i hc
      refine .inr ⟨_, rfl, ?_, fun d hd => List.all_eq_true.mp List.all_takeWhile d hd⟩
      rw [List.takeWhile_cons_of_pos hc]
      exact List.cons_ne_nil _ _
    · exact .inl rfl
  · exact .inl rfl

/-- **What is split off as a number is the spelling of one.** -/
theorem exists_numberSpelling {text spelling rest : List Char} (h : splitNumber? text = some (spelling, rest)) :
    ∃ n : NumberSpelling, spelling = n.text := by
  have hsign : sign text = [] ∨ sign text = ['-'] := by
    unfold sign
    split
    · exact .inr rfl
    · exact .inl rfl
  simp only [splitNumber?] at h
  generalize text.drop (sign text).length = body at h
  split at h
  · rename_i hsome
    cases h
    have hwhole : ∀ c ∈ body.takeWhile Char.isDigit, c.isDigit = true :=
      fun c hc => List.all_eq_true.mp List.all_takeWhile c hc
    generalize body.takeWhile Char.isDigit = whole at hsome hwhole
    have hspelled (isNegative : Bool) : ∃ n : NumberSpelling, n.isNegative = isNegative ∧
        n.unsigned = whole ++ fraction (body.dropWhile Char.isDigit) := by
      rcases fraction_cases (body.dropWhile Char.isDigit) with hnone | ⟨digits, hpoint, hne, hdigits⟩
      · rw [hnone] at hsome ⊢
        refine ⟨⟨isNegative, whole, [], ?_, hsome.1⟩, rfl, rfl⟩
        rwa [List.append_nil]
      · rw [hpoint]
        refine ⟨⟨isNegative, whole, digits, List.forall_mem_append.mpr ⟨hwhole, hdigits⟩,
          fun e => hne (List.append_eq_nil_iff.mp e).2⟩, rfl, ?_⟩
        exact congrArg (whole ++ ·) (if_neg hne)
    rcases hsign with hsign | hsign
    · obtain ⟨n, hn, hunsigned⟩ := hspelled false
      refine ⟨n, ?_⟩
      rw [NumberSpelling.text, hn, hunsigned, hsign]
      rfl
    · obtain ⟨n, hn, hunsigned⟩ := hspelled true
      refine ⟨n, ?_⟩
      rw [NumberSpelling.text, hn, hunsigned, hsign]
      rfl
  · cases h

end Token

/-- The expression is written so, wherever it stands and whatever the references are answered with. -/
def Expr.WrittenAs (e : Expr) (code : String) : Prop :=
  ∀ hints scope, ∃ value, (e.value hints scope).ask = pure value ∧ value.text = code

theorem writtenAs_num (spelling : String) : (Expr.num spelling).WrittenAs spelling :=
  fun hints scope => ⟨.constant spelling, by rw [Expr.value, ValueOf.ask], rfl⟩

/-- **Every number is written into the code as it is spelled.** It is a literal of strict code exactly if no digit
    follows a zero in front, and a literal of the number that is spelled then. -/
theorem number_emitted {inner : List Char} {tokens : List Token} {spelling : String}
    (h : Token.tokenize inner = .ok tokens) (hm : .num spelling ∈ tokens) :
    ∃ n : NumberSpelling, spelling.toList = n.text ∧
      (∀ position rest,
        (readExpr position (.num spelling :: rest)).map Read.value = .ok (.num spelling)) ∧
      (Expr.num spelling).WrittenAs spelling ∧
      ((∃ value, SignedLiteral spelling.toList value) ↔ n.IsStrict) ∧
      ∀ value, SignedLiteral spelling.toList value → value = n.value := by
  obtain ⟨n, hn⟩ := Token.spelled_readAll (P := fun spelling => ∃ n : NumberSpelling, spelling = n.text)
    Token.exists_numberSpelling false inner tokens h spelling hm
  refine ⟨n, hn, fun position rest => ?_, writtenAs_num spelling, ?_, ?_⟩
  · rw [readExpr]
    rfl
  · rw [hn]
    constructor
    · rintro ⟨value, hliteral⟩
      exact (n.signedLiteral_iff.mp hliteral).1
    · exact fun hstrict => ⟨n.value, n.signedLiteral_iff.mpr ⟨hstrict, rfl⟩⟩
  · intro value hliteral
    rw [hn, n.signedLiteral_iff] at hliteral
    exact hliteral.2

/-- A negative number with a fraction is a literal of the number that is spelled. -/
theorem number_emitted_fraction : ∃ n : NumberSpelling, "-1.50".toList = n.text ∧ n.IsStrict ∧
    (Expr.num "-1.50").WrittenAs "-1.50" ∧ n.value = Rat.neg (decimalValue ['1'] ['5', '0']) := by
  have htokens : Token.tokenize "h -1.50".toList = .ok [.id "h", .num "-1.50"] :=
    eq_ok_of_toOption (by decide +kernel)
  have hliteral : SignedLiteral "-1.50".toList (Rat.neg (decimalValue ['1'] ['5', '0'])) :=
    .negated (@DecimalLiteral.pointed ['1'] ['5', '0'] ⟨by decide, List.all_eq_true.mp rfl⟩ (by decide)
      (List.all_eq_true.mp rfl))
  obtain ⟨n, hn, _, hwritten, hstrict, hvalue⟩ := number_emitted htokens (.tail _ (.head _))
  exact ⟨n, hn, hstrict.mp ⟨_, hliteral⟩, hwritten, (hvalue _ hliteral).symm⟩

/-- **A number that is no literal**: a digit follows the zero in front. -/
theorem octal_emitted :
    Token.tokenize "h 010".toList = .ok [.id "h", .num "010"] ∧ (Expr.num "010").WrittenAs "010" ∧
    ¬ ∃ value, SignedLiteral "010".toList value := by
  have htokens : Token.tokenize "h 010".toList = .ok [.id "h", .num "010"] :=
    eq_ok_of_toOption (by decide +kernel)
  refine ⟨htokens, writtenAs_num "010", ?_⟩
  rintro ⟨value, hliteral⟩
  obtain ⟨hliteral⟩ | ⟨hliteral⟩ := hliteral
  exact absurd (hliteral.split.1 rfl) (by decide)

end Stache
