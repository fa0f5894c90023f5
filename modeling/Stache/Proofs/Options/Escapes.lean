import Mathlib.Data.List.Infix
import Stache.Options.Query
import Stache.Proofs.Text.Bytes

/-!
# What a percent-encoded text spells

A percent sign and two hexadecimal digits spell a byte, a plus sign spells a space, and every other character
spells itself. The decoder works on bytes; what it does is told here by characters.

* `Unescaped` -- the bytes that a spelling stands for, given which escapes there are;
* `decodeBytes_encoded` -- the decoder comes to these bytes;
* `exists_unescaped_iff` -- there are such bytes if and only if every percent sign begins an escape;
* `decode_documented` -- **what a spelling is decoded to**, and when this is what the spelling says.
-/

namespace Stache.Query

open Text

/-! ## 1. Escapes -/

/-- The character is the hexadecimal digit with the value, a letter in either case. -/
def IsHexDigit (c : Char) (value : Nat) : Prop :=
  value < 16 ∧ (c = value.digitChar ∨ c = value.digitChar.toUpper)

/-- Two hexadecimal digits spell the byte. -/
def HexPair (high low : Char) (byte : UInt8) : Prop :=
  ∃ h l, IsHexDigit high h ∧ IsHexDigit low l ∧ byte = UInt8.ofNat (16 * h + l)

/-- What the decoder takes behind a percent sign: two hexadecimal digits, or a plus sign and one. -/
def Accepted (high low : Char) (byte : UInt8) : Prop :=
  HexPair high low byte ∨ high = '+' ∧ ∃ l, IsHexDigit low l ∧ byte = UInt8.ofNat l

theorem hexValue?_digit : ∀ value < 16, value.digitChar.toNat < 128 ∧ value.digitChar.toUpper.toNat < 128 ∧
    hexValue? (UInt8.ofNat value.digitChar.toNat) = some (UInt8.ofNat value) ∧
    hexValue? (UInt8.ofNat value.digitChar.toUpper.toNat) = some (UInt8.ofNat value) := by
  decide

theorem isHexDigit_of_hexValue? : ∀ n < 128, ∀ value ∈ hexValue? (UInt8.ofNat n), value.toNat < 16 ∧
    (Char.ofNat n = value.toNat.digitChar ∨ Char.ofNat n = value.toNat.digitChar.toUpper) := by
  decide +kernel

theorem digit_ne_mark : ∀ value < 16, value.digitChar ≠ '+' ∧ value.digitChar.toUpper ≠ '+' ∧
    value.digitChar ≠ '%' ∧ value.digitChar.toUpper ≠ '%' := by
  decide

namespace IsHexDigit

variable {c : Char} {value : Nat}

theorem narrow (h : IsHexDigit c value) : c.toNat < 128 := by
  obtain ⟨hlt, rfl | rfl⟩ := h
  · exact (hexValue?_digit _ hlt).1
  · exact (hexValue?_digit _ hlt).2.1

theorem ne_plus (h : IsHexDigit c value) : c ≠ '+' := by
  obtain ⟨hlt, rfl | rfl⟩ := h
  · exact (digit_ne_mark _ hlt).1
  · exact (digit_ne_mark _ hlt).2.1

theorem ne_percent (h : IsHexDigit c value) : c ≠ '%' := by
  obtain ⟨hlt, rfl | rfl⟩ := h
  · exact (digit_ne_mark _ hlt).2.2.1
  · exact (digit_ne_mark _ hlt).2.2.2

end IsHexDigit

section Digits

variable {c high low : Char} {byte : UInt8}

theorem hexValue?_narrow (hc : c.toNat < 128) :
    hexValue? (UInt8.ofNat c.toNat) = some byte ↔ IsHexDigit c byte.toNat := by
  constructor
  · intro h
    have hdigit := isHexDigit_of_hexValue? _ hc byte h
    rwa [Char.ofNat_toNat] at hdigit
  · intro h
    obtain ⟨hlt, rfl | rfl⟩ := h
    · rw [(hexValue?_digit _ hlt).2.2.1, UInt8.ofNat_toNat]
    · rw [(hexValue?_digit _ hlt).2.2.2, UInt8.ofNat_toNat]

theorem hexValue?_wide (h : 128 ≤ byte) : hexValue? byte = none := by
  have hbound {n : UInt8} (hn : n < 128) : ¬ byte ≤ n := fun hle =>
    absurd (UInt8.lt_of_le_of_lt (UInt8.le_trans h hle) hn) (UInt8.lt_irrefl _)
  unfold hexValue?
  rw [if_neg fun h => hbound (by decide) h.2, if_neg fun h => hbound (by decide) h.2,
    if_neg fun h => hbound (by decide) h.2]

theorem escapedByte?_narrow (hhigh : high.toNat < 128) (hlow : low.toNat < 128) :
    escapedByte? (UInt8.ofNat high.toNat) (UInt8.ofNat low.toNat) = some byte ↔ Accepted high low byte := by
  have hplus : UInt8.ofNat high.toNat = 43 ↔ high = '+' := by
    constructor
    · intro h
      have hn := congrArg UInt8.toNat h
      rw [UInt8.toNat_ofNat_of_lt' (Nat.lt_trans hhigh (by decide))] at hn
      rw [← Char.ofNat_toNat high, hn]
      rfl
    · rintro rfl
      rfl
  unfold escapedByte? Accepted HexPair
  simp only [hplus]
  by_cases hp : high = '+'
  · rw [if_pos hp, hexValue?_narrow hlow]
    constructor
    · intro h
      exact .inr ⟨hp, _, h, UInt8.ofNat_toNat.symm⟩
    · rintro (⟨h, _, hdigit, _⟩ | ⟨_, l, hl, rfl⟩)
      · exact absurd hp hdigit.ne_plus
      · rwa [UInt8.toNat_ofNat_of_lt' (Nat.lt_trans hl.1 (by decide))]
  · rw [if_neg hp]
    simp only [bind, Option.bind_eq_some_iff, hexValue?_narrow hhigh, hexValue?_narrow hlow, pure,
      Option.some.injEq, hp, false_and, or_false]
    constructor
    · rintro ⟨h, hh, l, hl, rfl⟩
      refine ⟨_, _, hh, hl, ?_⟩
      rw [UInt8.ofNat_add, UInt8.ofNat_mul, UInt8.ofNat_toNat, UInt8.ofNat_toNat]
      rfl
    · rintro ⟨h, l, hh, hl, rfl⟩
      refine ⟨UInt8.ofNat h, ?_, UInt8.ofNat l, ?_, ?_⟩
      · rwa [UInt8.toNat_ofNat_of_lt' (Nat.lt_trans hh.1 (by decide))]
      · rwa [UInt8.toNat_ofNat_of_lt' (Nat.lt_trans hl.1 (by decide))]
      · rw [UInt8.ofNat_add, UInt8.ofNat_mul]
        rfl

theorem Accepted.narrow (h : Accepted high low byte) : high.toNat < 128 ∧ low.toNat < 128 := by
  rcases h with ⟨_, _, hhigh, hlow, _⟩ | ⟨rfl, _, hlow, _⟩
  · exact ⟨hhigh.narrow, hlow.narrow⟩
  · exact ⟨by decide, hlow.narrow⟩

theorem escapedByte?_wide {high low : UInt8} (h : 128 ≤ high ∨ 128 ≤ low) : escapedByte? high low = none := by
  unfold escapedByte?
  rcases h with h | h
  · have hplus : high ≠ 43 := fun e => absurd (e ▸ h) (by decide)
    rw [if_neg hplus, hexValue?_wide h]
    rfl
  · rw [hexValue?_wide h]
    split
    · rfl
    · cases hexValue? high with
      | none => rfl
      | some value => rfl

end Digits

/-! ## 2. The bytes of a spelling -/

/-- The bytes that a spelling stands for, given which two characters behind a percent sign spell which byte. -/
inductive Unescaped (escape : Char → Char → UInt8 → Prop) : List Char → List UInt8 → Prop
  /-- Nothing. -/
  | nil : Unescaped escape [] []
  /-- An escape is its byte. -/
  | escaped {high low : Char} {byte : UInt8} {text : List Char} {bytes : List UInt8} :
    escape high low byte → Unescaped escape text bytes →
    Unescaped escape ('%' :: high :: low :: text) (byte :: bytes)
  /-- A plus sign is a space. -/
  | space {text : List Char} {bytes : List UInt8} :
    Unescaped escape text bytes → Unescaped escape ('+' :: text) (32 :: bytes)
  /-- Every other character is itself. -/
  | plain {c : Char} {text : List Char} {bytes : List UInt8} :
    c ≠ '%' → c ≠ '+' → Unescaped escape text bytes →
    Unescaped escape (c :: text) (String.utf8EncodeChar c ++ bytes)

section Decoding

variable {atStart : Bool} {byte high low : UInt8} {bytes rest : List UInt8} {text : List Char}

theorem decodeBytes_escape : decodeBytes atStart (37 :: high :: low :: rest) =
    (escapedByte? high low).bind fun byte => (decodeBytes false rest).map (byte :: ·) := by
  rw [decodeBytes]
  simp only [bind, pure, Option.map_eq_bind, Function.comp_def]

theorem decodeBytes_open (h : rest.length < 2) : decodeBytes atStart (37 :: rest) = none := by
  cases rest with
  | nil => rfl
  | cons high rest =>
    cases rest with
    | nil => rfl
    | cons low rest => exact absurd h (Nat.not_lt_of_le (Nat.le_add_left 2 rest.length))

theorem decodeBytes_plain (h : byte ≠ 37) : decodeBytes atStart (byte :: rest) =
    (decodeBytes false rest).map ((if byte = 43 ∧ !atStart then 32 else byte) :: ·) := by
  rw [decodeBytes]
  · rw [if_neg h]
  · intro _ _ _ e
    exact absurd e h

theorem decodeBytes_wide (h : ∀ byte ∈ bytes, 128 ≤ byte) :
    decodeBytes false (bytes ++ rest) = (decodeBytes false rest).map (bytes ++ ·) := by
  induction bytes with
  | nil => simp
  | cons byte bytes ih =>
    obtain ⟨hbyte, hbytes⟩ := List.forall_mem_cons.mp h
    have hne {n : UInt8} (hn : n < 128) : byte ≠ n := fun e =>
      absurd (UInt8.lt_of_le_of_lt hbyte (e ▸ hn)) (UInt8.lt_irrefl _)
    rw [List.cons_append, decodeBytes_plain (hne (by decide)), if_neg fun h => hne (by decide) h.1, ih hbytes,
      Option.map_map]
    rfl

/-- The place of a byte counts only for a plus sign. -/
theorem decodeBytes_start (h : byte ≠ 43) : decodeBytes true (byte :: rest) = decodeBytes false (byte :: rest) := by
  by_cases hp : byte = 37
  · subst hp
    cases rest with
    | nil => rfl
    | cons high rest =>
      cases rest with
      | nil => rfl
      | cons low rest => rw [decodeBytes_escape, decodeBytes_escape]
  · rw [decodeBytes_plain hp, decodeBytes_plain hp, if_neg fun e => h e.1, if_neg fun e => h e.1]

/-- A character that is neither a percent sign nor a plus sign is copied. -/
theorem decodeBytes_char {c : Char} (hpercent : c ≠ '%') (hplus : c ≠ '+') :
    decodeBytes false (encoded (c :: text)) =
      (decodeBytes false (encoded text)).map (String.utf8EncodeChar c ++ ·) := by
  by_cases hc : c.toNat < 128
  · have hne {d : Char} (hd : d.toNat < 128) (h : c ≠ d) : UInt8.ofNat c.toNat ≠ UInt8.ofNat d.toNat := fun e => by
      have hone : encoded [c] = UInt8.ofNat d.toNat :: encoded [] := by rw [encoded_cons_narrow hc, e]
      obtain ⟨_, hrest, _⟩ := (encoded_eq_cons hd).mp hone
      exact h (List.cons.inj hrest).1
    have hone := @encoded_cons_narrow c [] hc
    rw [encoded, List.flatMap_singleton] at hone
    rw [encoded_cons_narrow hc, decodeBytes_plain (hne (d := '%') (by decide) hpercent),
      if_neg fun h => hne (d := '+') (by decide) hplus h.1, hone]
    rfl
  · exact decodeBytes_wide fun byte h => wide_of_mem hc h

/-- Behind a percent sign an escape is read, or the decoder fails. -/
theorem decodeBytes_percent : decodeBytes false (encoded ('%' :: text)) = some bytes ↔
    ∃ high low rest byte tail, text = high :: low :: rest ∧ Accepted high low byte ∧
      decodeBytes false (encoded rest) = some tail ∧ bytes = byte :: tail := by
  have hfront : encoded ('%' :: text) = 37 :: encoded text := encoded_cons_narrow (by decide)
  rw [hfront]
  constructor
  · intro h
    -- a wide character behind the percent sign has bytes that are no digits, or too few follow
    have hmissing (hlt : (encoded text).length < 2) : False := by
      rw [decodeBytes_open hlt] at h
      cases h
    have hwide {high low : UInt8} {rest : List UInt8} (he : encoded text = high :: low :: rest)
        (hb : 128 ≤ high ∨ 128 ≤ low) : False := by
      rw [he, decodeBytes_escape, escapedByte?_wide hb] at h
      cases h
    cases text with
    | nil => exact (hmissing (by decide)).elim
    | cons high text =>
      by_cases hhigh : high.toNat < 128
      · have hfirst := @encoded_cons_narrow high text hhigh
        cases text with
        | nil => exact (hmissing (hfirst ▸ Nat.one_lt_two)).elim
        | cons low rest =>
          by_cases hlow : low.toNat < 128
          · rw [hfirst, encoded_cons_narrow hlow, decodeBytes_escape, Option.bind_eq_some_iff] at h
            obtain ⟨byte, hbyte, h⟩ := h
            obtain ⟨tail, htail, rfl⟩ := Option.map_eq_some_iff.mp h
            exact ⟨high, low, rest, byte, tail, rfl, (escapedByte?_narrow hhigh hlow).mp hbyte, htail, rfl⟩
          · obtain ⟨byte, tail, hsecond, hb⟩ := @encoded_cons_wide low rest hlow
            exact (hwide (hfirst.trans (congrArg _ hsecond)) (.inr hb)).elim
      · obtain ⟨byte, tail, hfirst, hb⟩ := @encoded_cons_wide high text hhigh
        cases tail with
        | nil => exact (hmissing (hfirst ▸ Nat.one_lt_two)).elim
        | cons next tail => exact (hwide hfirst (.inl hb)).elim
  · intro h
    obtain ⟨high, low, rest, byte, tail, rfl, haccepted, htail, rfl⟩ := h
    obtain ⟨hhigh, hlow⟩ := haccepted.narrow
    rw [encoded_cons_narrow hhigh, encoded_cons_narrow hlow, decodeBytes_escape,
      (escapedByte?_narrow hhigh hlow).mpr haccepted, htail]
    rfl

/-- **The decoder comes to the bytes that the spelling stands for.** -/
theorem decodeBytes_encoded : decodeBytes false (encoded text) = some bytes ↔ Unescaped Accepted text bytes := by
  constructor
  · intro h
    induction hlength : text.length using Nat.strong_induction_on generalizing text bytes with
    | _ length ih =>
      cases text with
      | nil =>
        cases h
        exact .nil
      | cons c text =>
        subst hlength
        by_cases hpercent : c = '%'
        · subst hpercent
          obtain ⟨high, low, rest, byte, tail, rfl, haccepted, htail, rfl⟩ := decodeBytes_percent.mp h
          exact .escaped haccepted (ih rest.length (by simp; omega) htail rfl)
        · by_cases hplus : c = '+'
          · subst hplus
            rw [encoded_cons_narrow (by decide), decodeBytes_plain (by decide)] at h
            obtain ⟨tail, htail, rfl⟩ := Option.map_eq_some_iff.mp h
            exact .space (ih text.length (by simp) htail rfl)
          · rw [decodeBytes_char hpercent hplus] at h
            obtain ⟨tail, htail, rfl⟩ := Option.map_eq_some_iff.mp h
            exact .plain hpercent hplus (ih text.length (by simp) htail rfl)
  · intro h
    induction h with
    | nil => rfl
    | escaped hescape _ ih => exact decodeBytes_percent.mpr ⟨_, _, _, _, _, rfl, hescape, ih, rfl⟩
    | space _ ih =>
      rw [encoded_cons_narrow (by decide), decodeBytes_plain (by decide), ih]
      rfl
    | plain hpercent hplus _ ih => rw [decodeBytes_char hpercent hplus, ih, Option.map_some]

end Decoding

/-! ## 3. Percent signs -/

/-- Behind every percent sign stands an escape. -/
def EachEscapes (escape : Char → Char → UInt8 → Prop) (spelling : List Char) : Prop :=
  ∀ before after, spelling = before ++ '%' :: after →
    ∃ high low rest byte, after = high :: low :: rest ∧ escape high low byte

section Escapes

variable {escape : Char → Char → UInt8 → Prop} {c : Char} {text : List Char} {bytes : List UInt8}

theorem eachEscapes_cons : EachEscapes escape (c :: text) ↔
    (c = '%' → ∃ high low rest byte, text = high :: low :: rest ∧ escape high low byte) ∧
      EachEscapes escape text := by
  constructor
  · intro h
    refine ⟨fun hc => h [] text (congrArg (· :: text) hc), fun before after e => ?_⟩
    exact h (c :: before) after (congrArg _ e)
  · intro h before after e
    obtain ⟨hfirst, hrest⟩ := h
    cases before with
    | nil =>
      obtain ⟨hc, htext⟩ := List.cons.inj e
      exact htext ▸ hfirst hc
    | cons b before => exact hrest before after (List.cons.inj e).2

/-- **A spelling stands for bytes** if and only if every percent sign in it begins an escape. -/
theorem exists_unescaped_iff (hfree : ∀ {high low byte}, escape high low byte → high ≠ '%' ∧ low ≠ '%') :
    (∃ bytes, Unescaped escape text bytes) ↔ EachEscapes escape text := by
  constructor
  · intro h
    obtain ⟨bytes, h⟩ := h
    induction h with
    | nil =>
      intro before after e
      cases before with
      | nil => cases e
      | cons b before => cases e
    | escaped hescape _ ih =>
      obtain ⟨hhigh, hlow⟩ := hfree hescape
      refine eachEscapes_cons.mpr ⟨fun _ => ⟨_, _, _, _, rfl, hescape⟩, ?_⟩
      exact eachEscapes_cons.mpr ⟨fun e => absurd e hhigh, eachEscapes_cons.mpr ⟨fun e => absurd e hlow, ih⟩⟩
    | space _ ih => exact eachEscapes_cons.mpr ⟨fun e => absurd e (by decide), ih⟩
    | plain hpercent _ _ ih => exact eachEscapes_cons.mpr ⟨fun e => absurd e hpercent, ih⟩
  · intro h
    induction hlength : text.length using Nat.strong_induction_on generalizing text with
    | _ length ih =>
      subst hlength
      cases text with
      | nil => exact ⟨[], .nil⟩
      | cons c text =>
        obtain ⟨hfirst, hrest⟩ := eachEscapes_cons.mp h
        by_cases hpercent : c = '%'
        · obtain ⟨high, low, rest, byte, rfl, hescape⟩ := hfirst hpercent
          subst hpercent
          have hbehind := (eachEscapes_cons.mp (eachEscapes_cons.mp hrest).2).2
          obtain ⟨bytes, hbytes⟩ := ih rest.length (by simp; omega) hbehind rfl
          exact ⟨_, .escaped hescape hbytes⟩
        · obtain ⟨bytes, hbytes⟩ := ih text.length (by simp) hrest rfl
          by_cases hplus : c = '+'
          · subst hplus
            exact ⟨_, .space hbytes⟩
          · exact ⟨_, .plain hpercent hplus hbytes⟩

theorem Unescaped.mono {other : Char → Char → UInt8 → Prop}
    (h : ∀ {high low byte}, escape high low byte → other high low byte) (hu : Unescaped escape text bytes) :
    Unescaped other text bytes := by
  induction hu with
  | nil => exact .nil
  | escaped hescape _ ih => exact .escaped (h hescape) ih
  | space _ ih => exact .space ih
  | plain hpercent hplus _ ih => exact .plain hpercent hplus ih

end Escapes

theorem HexPair.free {high low : Char} {byte : UInt8} (h : HexPair high low byte) : high ≠ '%' ∧ low ≠ '%' := by
  obtain ⟨_, _, hhigh, hlow, _⟩ := h
  exact ⟨hhigh.ne_percent, hlow.ne_percent⟩

/-- **Only a plus sign behind a percent sign makes a difference.** -/
theorem unescaped_hexPair {text : List Char} {bytes : List UInt8} :
    Unescaped HexPair text bytes ↔ Unescaped Accepted text bytes ∧ ¬ ['%', '+'] <:+: text := by
  constructor
  · intro h
    refine ⟨h.mono .inl, fun hmark => ?_⟩
    obtain ⟨before, after, e⟩ := hmark
    obtain ⟨_, _, _, _, hafter, _, _, hhigh, _⟩ :=
      (exists_unescaped_iff HexPair.free).mp ⟨bytes, h⟩ before ('+' :: after) (by rw [← e]; simp)
    exact hhigh.ne_plus (List.cons.inj hafter).1.symm
  · intro h
    obtain ⟨h, hno⟩ := h
    have hrest {c : Char} {text : List Char} (h : ¬ ['%', '+'] <:+: c :: text) : ¬ ['%', '+'] <:+: text :=
      fun hi => h (hi.trans (List.suffix_cons c text).isInfix)
    induction h with
    | nil => exact .nil
    | @escaped high low byte text bytes hescape _ ih =>
      rcases hescape with hpair | ⟨rfl, _⟩
      · exact .escaped hpair (ih (hrest (hrest (hrest hno))))
      · exact absurd ⟨[], low :: text, rfl⟩ hno
    | space _ ih => exact .space (ih (hrest hno))
    | plain hpercent hplus _ ih => exact .plain hpercent hplus (ih (hrest hno))

/-! ## 4. Texts -/

/-- The text that a spelling is decoded to. A plus sign in front of everything stays. -/
inductive Decoded : List Char → List Char → Prop
  /-- Behind a plus sign. -/
  | signed {spelling text : List Char} :
    Unescaped Accepted spelling (encoded text) → Decoded ('+' :: spelling) ('+' :: text)
  /-- Without one. -/
  | unsigned {spelling text : List Char} :
    spelling.head? ≠ some '+' → Unescaped Accepted spelling (encoded text) → Decoded spelling text

/-- The text that a spelling says: with the byte of each escape and the space of each plus sign. -/
structure Documented (spelling text : List Char) : Prop where
  escapes : EachEscapes HexPair spelling
  bytes : Unescaped HexPair spelling (encoded text)

theorem decodeBytes_unsigned {spelling : List Char} (h : spelling.head? ≠ some '+') :
    decodeBytes true (encoded spelling) = decodeBytes false (encoded spelling) := by
  cases hbytes : encoded spelling with
  | nil => rfl
  | cons byte bytes =>
    refine decodeBytes_start fun e => ?_
    obtain ⟨rest, rfl, _⟩ := (encoded_eq_cons (c := '+') (by decide)).mp (e ▸ hbytes)
    exact h rfl

theorem decodeBytes_true {spelling text : List Char} :
    decodeBytes true (encoded spelling) = some (encoded text) ↔ Decoded spelling text := by
  have hsigned {rest : List Char} : decodeBytes true (encoded ('+' :: rest)) =
      (decodeBytes false (encoded rest)).map (43 :: ·) := by
    rw [encoded_cons_narrow (by decide), decodeBytes_plain (by decide)]
    rfl
  constructor
  · intro h
    by_cases hplus : spelling.head? = some '+'
    · obtain ⟨rest, rfl⟩ := List.head?_eq_some_iff.mp hplus
      rw [hsigned] at h
      obtain ⟨tail, htail, hbytes⟩ := Option.map_eq_some_iff.mp h
      obtain ⟨text, rfl, rfl⟩ := (encoded_eq_cons (c := '+') (by decide)).mp hbytes.symm
      exact .signed (decodeBytes_encoded.mp htail)
    · rw [decodeBytes_unsigned hplus] at h
      exact .unsigned hplus (decodeBytes_encoded.mp h)
  · intro h
    cases h with
    | signed hrest =>
      rw [hsigned, decodeBytes_encoded.mpr hrest, encoded_cons_narrow (by decide)]
      rfl
    | unsigned hplus h => rw [decodeBytes_unsigned hplus, decodeBytes_encoded.mpr h]

theorem decode_eq_ok {input text : String} : decode input = .ok text ↔ Decoded input.toList text.toList := by
  rw [← decodeBytes_true, decode, toList_toUTF8]
  cases decodeBytes true (encoded input.toList) with
  | none => constructor <;> (intro h; cases h)
  | some bytes =>
    dsimp only
    rw [Option.some.injEq, eq_comm (a := bytes), ← fromUTF8?_eq_some]
    cases String.fromUTF8? ⟨bytes.toArray⟩ with
    | none => constructor <;> (intro h; cases h)
    | some other => rw [Except.ok.injEq, Option.some.injEq]

/-- **What a spelling is decoded to.** It has to have an escape behind every percent sign, and the bytes of a
    text. The decoder takes a sign in the place of a first digit, and it leaves a plus sign in front; elsewhere it
    decodes what is documented: of the spellings without either of these, those that are decoded are those
    that say a text, and they are decoded to it. -/
theorem decode_documented (input text : String) :
    (decode input = .ok text ↔ Decoded input.toList text.toList) ∧
    (decode input = .ok text ∧ ¬ ['%', '+'] <:+: input.toList ∧ input.toList.head? ≠ some '+' ↔
      Documented input.toList text.toList ∧ input.toList.head? ≠ some '+') := by
  refine ⟨decode_eq_ok, ?_⟩
  rw [decode_eq_ok]
  generalize input.toList = spelling, text.toList = shown
  constructor
  · intro h
    obtain ⟨hdecoded, hno, hplus⟩ := h
    refine ⟨?_, hplus⟩
    cases hdecoded with
    | signed _ => exact absurd rfl hplus
    | unsigned _ h =>
      have hpairs := unescaped_hexPair.mpr ⟨h, hno⟩
      exact ⟨(exists_unescaped_iff HexPair.free).mp ⟨_, hpairs⟩, hpairs⟩
  · intro h
    obtain ⟨hmeant, hplus⟩ := h
    obtain ⟨haccepted, hno⟩ := unescaped_hexPair.mp hmeant.bytes
    exact ⟨.unsigned hplus haccepted, hno, hplus⟩

/-- **A sign is taken for a digit, and a plus sign in front is kept**, against what the spellings say. -/
theorem decode_undocumented :
    (decode "%+1" = .ok "\x01" ∧ ¬ ∃ text, Documented "%+1".toList text) ∧
    decode "+b" = .ok "+b" ∧ Documented "+b".toList " b".toList := by
  refine ⟨⟨by decide +kernel, ?_⟩, by decide +kernel, ?_⟩
  · intro h
    obtain ⟨text, h⟩ := h
    exact (unescaped_hexPair.mp h.bytes).2 ⟨[], ['1'], rfl⟩
  · have hbytes : Unescaped HexPair "+b".toList (encoded " b".toList) :=
      .space (.plain (c := 'b') (by decide) (by decide) .nil)
    exact ⟨(exists_unescaped_iff HexPair.free).mp ⟨_, hbytes⟩, hbytes⟩

end Stache.Query
