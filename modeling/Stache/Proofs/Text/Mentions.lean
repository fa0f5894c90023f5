import Mathlib.Data.List.Infix
import Stache.Proofs.Text.Parts
import Stache.Text.Cut

/-!
# What generated code mentions

Outside its string literals, generated code mentions numbered programs, outer contexts and partials, each
by a mark that it begins with.

* `mentions` -- what a piece of code mentions, in the order of the text;
* `Tells`, `TellsBefore` -- what a piece adds to what is mentioned behind it, whatever that is, or whatever
  it is as long as it does not go on with a letter;
* `tells_of_silent`, `tells_quote`, `tells_program` -- fixed code in which no mark begins, the literal of
  any text, and the mark of a program with its number;
* `TellsAll` -- the same for lists of pieces.
-/

namespace Stache.Text

/-! ## 1. Marks -/

/-- What generated code mentions. -/
inductive Mention where
  /-- The program with a number. -/
  | program (number : Nat)
  /-- A partial that is rendered. -/
  | partialTemplate
  /-- An outer context. -/
  | outer
  deriving DecidableEq, Repr

/-- `container.program(` -/
def programMark : List Char :=
  ['c', 'o', 'n', 't', 'a', 'i', 'n', 'e', 'r', '.', 'p', 'r', 'o', 'g', 'r', 'a', 'm', '(']

/-- `container.invokePartial(` -/
def partialMark : List Char :=
  ['c', 'o', 'n', 't', 'a', 'i', 'n', 'e', 'r', '.', 'i', 'n', 'v', 'o', 'k', 'e', 'P', 'a', 'r', 't', 'i',
    'a', 'l', '(']

/-- `depths[` -/
def outerMark : List Char :=
  ['d', 'e', 'p', 't', 'h', 's', '[']

/-- What code without literals mentions where it begins. The number of a program stands behind its mark. -/
def mention? (code : List Char) : Option Mention :=
  match afterMark? programMark code with
  | some rest => some (.program (Nat.ofDigitChars 10 (rest.takeWhile Char.isDigit) 0))
  | none =>
    if (afterMark? partialMark code).isSome then some .partialTemplate
    else if (afterMark? outerMark code).isSome then some .outer
    else none

/-- What code without literals mentions. -/
def mentionsIn : List Char → List Mention
  | [] => []
  | c :: code => (mention? (c :: code)).toList ++ mentionsIn code

/-- What code mentions outside its literals, if it can be read. -/
def mentions? (code : List Char) : Option (List Mention) :=
  (Parts.read? code).map fun parts => parts.outside.flatMap mentionsIn

/-- **What a text of code mentions** outside its literals. -/
def mentions (code : String) : List Mention :=
  (mentions? code.toList).getD []

/-! ## 2. Pieces of code -/

/-- The next character, if there is one, is no letter. -/
def NoLetter (code : List Char) : Prop :=
  ∀ c ∈ code.head?, c.isAlpha = false

/-- Whatever stands behind the piece, the piece mentions this and changes nothing about the rest. -/
def Tells (told : List Mention) (piece : List Char) : Prop :=
  ∀ rest, mentions? (piece ++ rest) = (mentions? rest).map (told ++ ·)

/-- Whatever stands behind the piece, if it goes on with no letter. -/
def TellsBefore (told : List Mention) (piece : List Char) : Prop :=
  ∀ rest, NoLetter rest → mentions? (piece ++ rest) = (mentions? rest).map (told ++ ·)

variable {told more : List Mention} {a b : List Char}

theorem Tells.before (h : Tells told a) : TellsBefore told a :=
  fun rest _ => h rest

theorem Tells.append (h : Tells told a) (h' : Tells more b) : Tells (told ++ more) (a ++ b) := by
  intro rest
  rw [List.append_assoc, h, h', Option.map_map]
  simp only [Function.comp_def, List.append_assoc]

theorem Tells.appendBefore (h : Tells told a) (h' : TellsBefore more b) :
    TellsBefore (told ++ more) (a ++ b) := by
  intro rest hrest
  rw [List.append_assoc, h, h' rest hrest, Option.map_map]
  simp only [Function.comp_def, List.append_assoc]

/-- What stands behind the piece begins with no letter, whatever stands behind that. -/
theorem TellsBefore.append {c : Char} (h : TellsBefore told a) (h' : Tells more (c :: b))
    (hc : c.isAlpha = false) : Tells (told ++ more) (a ++ c :: b) := by
  intro rest
  have hnext : NoLetter (c :: b ++ rest) := by
    rintro _ ⟨⟩
    exact hc
  rw [List.append_assoc, h _ hnext, h', Option.map_map]
  simp only [Function.comp_def, List.append_assoc]

/-- A piece is read by itself, too. -/
theorem TellsBefore.mentions?_eq (h : TellsBefore told a) : mentions? a = some told := by
  have := h [] nofun
  rw [List.append_nil] at this
  exact this.trans (congrArg some (List.append_nil told))

theorem TellsBefore.mentions_eq {code : String} (h : TellsBefore told code.toList) :
    mentions code = told := by
  rw [mentions, h.mentions?_eq]
  rfl

/-! ## 3. Silent code -/

/-- The mark and the code agree as far as both go. -/
def agrees : (mark code : List Char) → Bool
  | [], _ => true
  | _, [] => true
  | m :: mark, c :: code => m == c && agrees mark code

/-- No mark begins in the code, whatever stands behind it. The code begins in a literal or outside, ends
    outside, and has no backslashes. -/
def isSilent : (inLiteral : Bool) → List Char → Bool
  | false, [] => true
  | true, [] => false
  | false, c :: code =>
    c != '\\' && if c = '"' then isSilent true code
      else !agrees programMark (c :: code) && !agrees partialMark (c :: code) &&
        !agrees outerMark (c :: code) && isSilent false code
  | true, c :: code => c != '\\' && if c = '"' then isSilent false code else isSilent true code

/-- A mark agrees with what begins as it does. -/
theorem agrees_of_afterMark? {mark code rest found : List Char}
    (h : afterMark? mark rest = some found) (hp : rest <+: code ∨ code <+: rest) :
    agrees mark code = true := by
  induction mark generalizing code rest with
  | nil => rfl
  | cons m mark ih =>
    cases rest with
    | nil => cases h
    | cons c rest =>
      cases code with
      | nil => rfl
      | cons d code =>
        rw [List.cons_prefix_cons, List.cons_prefix_cons] at hp
        rw [afterMark?] at h
        split at h
        · rename_i hmc
          have hcd : c = d := hp.elim And.left fun hp => hp.1.symm
          rw [agrees, hmc, hcd, beq_self_eq_true, Bool.true_and]
          exact ih h (hp.imp And.right And.right)
        · cases h

/-- What is read before the first literal is the beginning of the code. -/
theorem Parts.head_prefix {code : List Char} {parts : Parts} (h : read? code = some parts) :
    parts.head <+: code := by
  induction code generalizing parts with
  | nil =>
    cases h
    exact List.nil_prefix
  | cons c code ih =>
    by_cases hc : c = '"'
    · subst hc
      obtain ⟨_, _, rfl⟩ := Option.map_eq_some_iff.mp h
      exact List.nil_prefix
    · rw [read?] at h
      · obtain ⟨rest, hr, rfl⟩ := Option.map_eq_some_iff.mp h
        exact (List.prefix_cons_inj c).mpr (ih hr)
      · exact hc

/-- A character at which no mark begins. -/
theorem mention?_eq_none {c : Char} {code head rest : List Char}
    (hp : agrees programMark (c :: code) = false) (ha : agrees partialMark (c :: code) = false)
    (ho : agrees outerMark (c :: code) = false) (hh : head <+: code ++ rest) :
    mention? (c :: head) = none := by
  have hprefix : c :: head <+: c :: code ∨ c :: code <+: c :: head :=
    List.prefix_or_prefix_of_prefix ((List.prefix_cons_inj c).mpr hh)
      ((List.prefix_cons_inj c).mpr (List.prefix_append code rest))
  have none_of {mark : List Char} (h : agrees mark (c :: code) = false) :
      afterMark? mark (c :: head) = none := by
    rw [Option.eq_none_iff_forall_ne_some]
    intro found hf
    rw [agrees_of_afterMark? hf hprefix] at h
    cases h
  rw [mention?, none_of hp, none_of ha, none_of ho]
  rfl

/-- What is mentioned behind a literal. -/
def mentionsBehind? (code : List Char) : Option (List Mention) :=
  (Parts.readLiteral? code).map fun (_, parts) => parts.outside.flatMap mentionsIn

theorem mentions?_quote (code : List Char) : mentions? ('"' :: code) = mentionsBehind? code := by
  unfold mentions? mentionsBehind?
  rw [Parts.read?, Option.map_map]
  rfl

/-- **Silent code mentions nothing**, whatever stands behind it. -/
theorem mentions?_of_silent (rest : List Char) (inLiteral : Bool) (h : isSilent inLiteral a = true) :
    (if inLiteral then mentionsBehind? (a ++ rest) else mentions? (a ++ rest)) = mentions? rest := by
  induction a generalizing inLiteral with
  | nil =>
    cases inLiteral with
    | false => rfl
    | true => cases h
  | cons c code ih =>
    cases inLiteral with
    | false =>
      rw [isSilent, Bool.and_eq_true, bne_iff_ne] at h
      obtain ⟨_, h⟩ := h
      split at h
      · rename_i hc
        subst hc
        exact (mentions?_quote _).trans (ih true h)
      · rename_i hc
        simp only [Bool.and_eq_true, Bool.not_eq_true'] at h
        obtain ⟨⟨⟨hp, ha⟩, ho⟩, h⟩ := h
        have hrest := ih false h
        simp only [Bool.false_eq_true, if_false] at hrest ⊢
        rw [← hrest, List.cons_append]
        unfold mentions?
        rw [Parts.read?, Option.map_map]
        · refine Option.map_congr fun parts hparts => ?_
          have hnone := mention?_eq_none hp ha ho (Parts.head_prefix hparts)
          show ((mention? (c :: parts.head)).toList ++ mentionsIn parts.head) ++ _ = _
          rw [hnone]
          rfl
        · exact hc
    | true =>
      rw [isSilent, Bool.and_eq_true, bne_iff_ne] at h
      obtain ⟨hslash, h⟩ := h
      split at h
      · rename_i hc
        subst hc
        rw [if_pos rfl, ← ih false h, List.cons_append, mentionsBehind?, Parts.readLiteral?, Option.map_map]
        rfl
      · rename_i hc
        rw [if_pos rfl, ← ih true h, if_pos rfl, List.cons_append, mentionsBehind?,
          Parts.readLiteral?, Option.map_map]
        · rfl
        · exact hc
        · exact fun _ _ e => absurd e hslash

theorem tells_of_silent (h : isSilent false a = true) : Tells [] a := by
  intro rest
  rw [show mentions? (a ++ rest) = _ from mentions?_of_silent rest false h]
  exact Option.map_id'.symm

/-- Characters that begin no mark and no literal. -/
theorem tells_of_chars (h : ∀ c ∈ a, c ≠ 'c' ∧ c ≠ 'd' ∧ c ≠ '"' ∧ c ≠ '\\') : Tells [] a := by
  refine tells_of_silent ?_
  induction a with
  | nil => rfl
  | cons c code ih =>
    obtain ⟨⟨hc, hd, hquote, hslash⟩, h⟩ := List.forall_mem_cons.mp h
    have no {m : Char} {mark : List Char} (hm : c ≠ m) : agrees (m :: mark) (c :: code) = false := by
      rw [agrees, beq_false_of_ne hm.symm, Bool.false_and]
    have hp : agrees programMark (c :: code) = false := no hc
    have ha : agrees partialMark (c :: code) = false := no hc
    have ho : agrees outerMark (c :: code) = false := no hd
    rw [isSilent, if_neg hquote, hp, ha, ho, ih h, bne_iff_ne.mpr hslash]
    rfl

/-- A number as it is written. -/
theorem tells_toString (n : Nat) : Tells [] (toString n).toList := by
  refine tells_of_chars fun c hc => ?_
  rw [Nat.toString_eq_repr, Nat.toList_repr] at hc
  have hdigit : c.isDigit = true := Nat.isDigit_of_mem_toDigits (by decide) (by decide) hc
  refine ⟨?_, ?_, ?_, ?_⟩
  all_goals
    rintro rfl
    cases hdigit

/-! ## 4. Literals -/

theorem isLiteral_hex4 (n : Nat) : IsLiteral (hex4 n) := by
  have digit : ∀ m < 16, hexDigit m ≠ '"' ∧ hexDigit m ≠ '\\' ∧ isRaw (hexDigit m) = false := by
    decide
  have hm (m : Nat) : IsLiteral [hexDigit (m % 16)] := by
    obtain ⟨hquote, hslash, hraw⟩ := digit (m % 16) (Nat.mod_lt m (by decide))
    exact .char hquote hslash hraw .nil
  exact (hm _).append ((hm _).append ((hm _).append (hm _)))

theorem isLiteral_escapeChar (c : Char) : IsLiteral (escapeChar c) := by
  unfold escapeChar
  split
  case h_8 _ hquote hslash _ _ _ _ _ =>
    split
    · exact .escape rfl rfl (isLiteral_hex4 _)
    · rename_i hraw
      refine .char hquote hslash ?_ .nil
      simpa [isRaw] using hraw
  all_goals exact .escape rfl rfl .nil

theorem isLiteral_escapeChars (text : List Char) : IsLiteral (text.flatMap escapeChar) := by
  induction text with
  | nil => exact .nil
  | cons c text ih =>
    rw [List.flatMap_cons]
    exact (isLiteral_escapeChar c).append ih

theorem quoted_append (text rest : List Char) :
    quoted text ++ rest = '"' :: (text.flatMap escapeChar ++ '"' :: rest) := by
  rw [quoted, List.cons_append, List.append_assoc]
  rfl

/-- The literal of a text is read as one. -/
theorem Parts.read_quoted (text rest : List Char) : read? (quoted text ++ rest) =
    (read? rest).map fun behind => ⟨[], (text.flatMap escapeChar, behind.head) :: behind.tail⟩ := by
  rw [quoted_append, read?, readLiteral_append (isLiteral_escapeChars text), Option.map_map]
  rfl

/-- **The literal of a text mentions nothing**, whatever the text. -/
theorem tells_quoted (text : List Char) : Tells [] (quoted text) := by
  intro rest
  rw [quoted_append, mentions?_quote, mentionsBehind?, Parts.readLiteral_append (isLiteral_escapeChars text),
    Option.map_map]
  exact Option.map_id'.symm

theorem tells_quote (text : String) : Tells [] (quote text).toList := by
  rw [quote, String.toList_ofList]
  exact tells_quoted text.toList

/-! ## 5. Marks in code -/

/-- Code without literals in front of other code. -/
theorem tells_of_outside (ha : IsOutside a) (h : ∀ rest, mentionsIn (a ++ rest) = told ++ mentionsIn rest) :
    Tells told a := by
  intro rest
  unfold mentions?
  rw [Parts.read_append ha, Option.map_map, Option.map_map]
  refine congrArg (Option.map · _) (funext fun parts => ?_)
  show mentionsIn (a ++ parts.head) ++ _ = told ++ (mentionsIn parts.head ++ _)
  rw [h, List.append_assoc]

theorem isOutside_of_all (h : a.all (fun c => c != '"' && c != '\\') = true) : IsOutside a := by
  intro c hc
  have := List.all_eq_true.mp h c hc
  rwa [Bool.and_eq_true, bne_iff_ne, bne_iff_ne] at this

theorem tells_outer : Tells [.outer] outerMark :=
  tells_of_outside (isOutside_of_all rfl) fun _ => rfl

theorem tells_partial : Tells [.partialTemplate] partialMark :=
  tells_of_outside (isOutside_of_all rfl) fun _ => rfl

/-- Digits begin no mark. -/
theorem mentionsIn_digits {digits : List Char} (h : ∀ c ∈ digits, c.isDigit = true) (rest : List Char) :
    mentionsIn (digits ++ rest) = mentionsIn rest := by
  induction digits with
  | nil => rfl
  | cons c digits ih =>
    obtain ⟨hc, h⟩ := List.forall_mem_cons.mp h
    have no {m : Char} {mark code : List Char} (hm : m.isDigit = false) :
        afterMark? (m :: mark) (c :: code) = none := by
      refine if_neg ?_
      rintro rfl
      rw [hm] at hc
      cases hc
    have hnone : mention? (c :: (digits ++ rest)) = none := by
      rw [mention?, programMark, no rfl, partialMark, no rfl, outerMark, no rfl]
      rfl
    rw [List.cons_append, mentionsIn, hnone, ih h]
    rfl

/-- **The mark of a program** and its number, up to the comma behind it. -/
theorem tells_program (n : Nat) :
    Tells [.program n] (programMark ++ ((toString n).toList ++ [','])) := by
  rw [Nat.toString_eq_repr, Nat.toList_repr]
  have hdigits : ∀ c ∈ Nat.toDigits 10 n, c.isDigit = true :=
    fun c hc => Nat.isDigit_of_mem_toDigits (by decide) (by decide) hc
  have hout : IsOutside (programMark ++ (Nat.toDigits 10 n ++ [','])) := by
    intro c hc
    rcases List.mem_append.mp hc with hc | hc
    · exact isOutside_of_all (a := programMark) rfl c hc
    · rcases List.mem_append.mp hc with hc | hc
      · have := hdigits c hc
        constructor
        all_goals
          rintro rfl
          cases this
      · cases List.mem_singleton.mp hc
        decide
  refine tells_of_outside hout fun rest => ?_
  have htake : (Nat.toDigits 10 n ++ (',' :: rest)).takeWhile Char.isDigit = Nat.toDigits 10 n := by
    rw [List.takeWhile_append_of_pos hdigits]
    exact List.append_nil _
  have hfirst : mentionsIn (programMark ++ (Nat.toDigits 10 n ++ (',' :: rest))) =
      .program (Nat.ofDigitChars 10
        ((Nat.toDigits 10 n ++ (',' :: rest)).takeWhile Char.isDigit) 0) ::
        mentionsIn (Nat.toDigits 10 n ++ (',' :: rest)) := rfl
  rw [List.append_assoc, List.append_assoc, List.singleton_append, hfirst, htake,
    Nat.ofDigitChars_ten_toDigits, mentionsIn_digits hdigits]
  rfl

/-- The constant ends with the letter that the mark of an outer context begins with. -/
theorem tells_undefined : TellsBefore [] ['u', 'n', 'd', 'e', 'f', 'i', 'n', 'e', 'd'] := by
  have front : Tells [] ['u', 'n', 'd', 'e', 'f', 'i', 'n', 'e'] := tells_of_silent rfl
  refine front.appendBefore (b := ['d']) fun rest hrest => ?_
  have hnone : ∀ head, head <+: rest → mention? ('d' :: head) = none := by
    intro head hh
    cases head with
    | nil => rfl
    | cons c head =>
      obtain ⟨back, rfl⟩ := hh
      have hc : 'e' ≠ c := by
        rintro rfl
        cases hrest 'e' rfl
      have hmark : afterMark? outerMark ('d' :: c :: head) = none := if_neg hc
      rw [mention?, hmark]
      rfl
  unfold mentions?
  rw [List.singleton_append, Parts.read?, Option.map_map, Option.map_map]
  · refine Option.map_congr fun parts hparts => ?_
    show ((mention? ('d' :: parts.head)).toList ++ mentionsIn parts.head) ++ _ = _
    rw [hnone parts.head (Parts.head_prefix hparts)]
    rfl
  · decide

end Stache.Text
