import Stache.Text.Blank
import Stache.Text.Quoted

/-!
# Scanning generated code

Generated code, read from left to right as string literals and other characters, with the brackets that
are open. A piece of code that stands where an expression or a statement may stand is `Sound`: it begins
and ends outside literals, and closes the brackets that it opens.

* `scan_append`, `scan_frame` -- pieces are scanned one after the other, and what is open around them is no
  matter;
* `Stands` -- a piece stands in code, outside literals;
* `sound_of_plain` -- characters that are no quotes, brackets or backslashes change nothing;
* `sound_quote` -- the literal of any text is sound.
-/

namespace Stache.Text

/-! ## 1. The scanner -/

/-- What a character does in code. -/
inductive Mark where
  /-- It begins or ends a literal. -/
  | quote
  /-- It takes the next character with it. -/
  | backslash
  /-- It opens a bracket, which has to be closed. -/
  | opening (closer : Char)
  /-- It closes a bracket. -/
  | closing
  /-- It stands for itself. -/
  | none
  deriving DecidableEq, Repr

/-- What a character does. -/
def Mark.ofChar (c : Char) : Mark :=
  if c = '"' then .quote
  else if c = '\\' then .backslash
  else if c = '(' then .opening ')'
  else if c = '[' then .opening ']'
  else if c = '\x7b' then .opening '\x7d'
  else if c = ')' ∨ c = ']' ∨ c = '\x7d' then .closing
  else .none

/-- A character that no literal may hold as it is: a control character below U+0020 or one of the line
    separators U+2028 and U+2029. -/
def isRaw (c : Char) : Bool :=
  c.toNat < 0x20 || c.toNat == 0x2028 || c.toNat == 0x2029

/-- Where the scanner is: outside literals, in one, or behind a backslash in one. -/
inductive Place where
  /-- Outside literals. -/
  | outside
  /-- In a literal. -/
  | inside
  /-- Behind a backslash in a literal. -/
  | escaped
  deriving DecidableEq, Repr

/-- The state of the scanner. -/
structure Scanner where
  /-- Where it is. -/
  place : Place
  /-- What the brackets that are open have to be closed with, the innermost first. -/
  opened : List Char
  deriving DecidableEq, Repr

namespace Scanner

/-- Reads a character. There are no backslashes outside literals, and what stands behind one in a literal
    is no blank. -/
def step : Scanner → Char → Option Scanner
  | ⟨.outside, opened⟩, c =>
    match Mark.ofChar c, opened with
    | .quote, opened => some ⟨.inside, opened⟩
    | .backslash, _ => none
    | .opening closer, opened => some ⟨.outside, closer :: opened⟩
    | .closing, closer :: opened => if c = closer then some ⟨.outside, opened⟩ else none
    | .closing, [] => none
    | .none, opened => some ⟨.outside, opened⟩
  | ⟨.inside, opened⟩, c =>
    match Mark.ofChar c with
    | .quote => some ⟨.outside, opened⟩
    | .backslash => some ⟨.escaped, opened⟩
    | _ => if isRaw c then none else some ⟨.inside, opened⟩
  | ⟨.escaped, opened⟩, c => if isRaw c || isBlank c then none else some ⟨.inside, opened⟩

/-- Reads characters. -/
def scan (s : Scanner) : List Char → Option Scanner
  | [] => some s
  | c :: code => (s.step c).bind fun s => s.scan code

/-! ## 2. Pieces -/

theorem scan_append (s : Scanner) (a b : List Char) :
    s.scan (a ++ b) = (s.scan a).bind fun s => s.scan b := by
  induction a generalizing s with
  | nil => rfl
  | cons c a ih =>
    simp only [List.cons_append, scan]
    cases s.step c with
    | none => rfl
    | some s => exact ih s

/-- More brackets are open around the scanner. -/
def under (outer : List Char) (s : Scanner) : Scanner :=
  ⟨s.place, s.opened ++ outer⟩

theorem step_frame {s t : Scanner} {c : Char} (h : s.step c = some t) (outer : List Char) :
    (s.under outer).step c = some (t.under outer) := by
  obtain ⟨place, opened⟩ := s
  cases place with
  | outside =>
    simp only [step, under] at h ⊢
    cases hm : Mark.ofChar c with
    | closing =>
      rw [hm] at h
      cases opened with
      | nil => cases h
      | cons closer opened =>
        dsimp only [List.cons_append] at h ⊢
        split at h
        · cases h
          rw [if_pos ‹_›]
        · cases h
    | backslash =>
      rw [hm] at h
      cases h
    | _ =>
      rw [hm] at h
      cases h
      rfl
  | inside =>
    simp only [step, under] at h ⊢
    cases hm : Mark.ofChar c with
    | quote | backslash =>
      rw [hm] at h
      cases h
      rfl
    | _ =>
      rw [hm] at h
      dsimp only at h ⊢
      split at h
      · cases h
      · cases h
        rw [if_neg ‹_›]
  | escaped =>
    simp only [step, under] at h ⊢
    split at h
    · cases h
    · cases h
      rw [if_neg ‹_›]

/-- **What is open around a piece is no matter.** -/
theorem scan_frame {s t : Scanner} {code : List Char} (h : s.scan code = some t)
    (outer : List Char) : (s.under outer).scan code = some (t.under outer) := by
  induction code generalizing s with
  | nil =>
    cases h
    rfl
  | cons c code ih =>
    simp only [scan] at h ⊢
    cases hs : s.step c with
    | none =>
      rw [hs] at h
      cases h
    | some next =>
      rw [hs] at h
      rw [step_frame hs]
      exact ih h

end Scanner

/-- The code leads from outside literals to outside literals, and from the brackets that are open to
    those. -/
def Leads (before after : List Char) (code : List Char) : Prop :=
  Scanner.scan ⟨.outside, before⟩ code = some ⟨.outside, after⟩

instance (before after code : List Char) : Decidable (Leads before after code) :=
  inferInstanceAs (Decidable (_ = _))

namespace Leads

variable {before between after : List Char} {a b : List Char}

theorem nil (opened : List Char) : Leads opened opened [] := rfl

theorem append (h : Leads before between a) (h' : Leads between after b) :
    Leads before after (a ++ b) := by
  rw [Leads, Scanner.scan_append, show Scanner.scan _ a = _ from h]
  exact h'

theorem frame (h : Leads before after a) (outer : List Char) :
    Leads (before ++ outer) (after ++ outer) a :=
  Scanner.scan_frame h outer

/-- A text, taken apart into its characters. -/
theorem ofList (h : Leads before after a) : Leads before after (String.ofList a).toList := by
  rwa [String.toList_ofList]

end Leads

/-- The code begins and ends outside literals, and closes the brackets that it opens, and no others. -/
def Sound (code : List Char) : Prop :=
  Leads [] [] code

theorem Sound.leads {code : List Char} (h : Sound code) (opened : List Char) :
    Leads opened opened code :=
  h.frame opened

/-- One text and then another. -/
theorem Leads.text {before between after : List Char} {a b : String} (h : Leads before between a.toList)
    (h' : Leads between after b.toList) : Leads before after (a ++ b).toList := by
  rw [String.toList_append]
  exact h.append h'

/-- Sound code leaves open what is open. -/
theorem Leads.sound {before after : List Char} {a b : String} (h : Leads before after a.toList)
    (h' : Sound b.toList) : Leads before after (a ++ b).toList :=
  h.text (h'.leads after)

/-- The piece stands in the code, outside literals. -/
def Stands (piece code : String) : Prop :=
  ∃ front back between, Leads [] between front.toList ∧ code = front ++ piece ++ back

theorem Stands.refl (code : String) : Stands code code :=
  ⟨"", "", [], .nil [], by rw [String.empty_append, String.append_empty]⟩

theorem Stands.trans {a b c : String} (h : Stands a b) (h' : Stands b c) : Stands a c := by
  obtain ⟨front, back, between, hf, rfl⟩ := h
  obtain ⟨front', back', between', hf', rfl⟩ := h'
  refine ⟨front' ++ front, back ++ back', _, hf'.text (hf.frame between'), ?_⟩
  simp only [String.append_assoc]

/-! ## 3. Plain characters -/

/-- No character of the text is a quote, a backslash or a bracket. -/
def IsPlain (text : List Char) : Prop :=
  ∀ c ∈ text, Mark.ofChar c = .none

theorem isPlain_ofList {text : List Char} (h : text.all (Mark.ofChar · = .none) = true) :
    IsPlain (String.ofList text).toList := by
  intro c hc
  rw [String.toList_ofList] at hc
  simpa using List.all_eq_true.mp h c hc

theorem ofChar_of_isDigit {c : Char} (h : c.isDigit = true) : Mark.ofChar c = .none := by
  have hne (d : Char) (hd : d.isDigit = false) : c ≠ d := by
    rintro rfl
    rw [hd] at h
    cases h
  unfold Mark.ofChar
  rw [if_neg (hne _ rfl), if_neg (hne _ rfl), if_neg (hne _ rfl), if_neg (hne _ rfl),
    if_neg (hne _ rfl), if_neg]
  rintro (e | e | e)
  all_goals exact hne _ rfl e

/-- The text is made of digits, minuses and points. -/
def IsFigures (text : List Char) : Prop :=
  ∀ c ∈ text, c.isDigit = true ∨ c = '-' ∨ c = '.'

theorem IsFigures.isPlain {text : List Char} (h : IsFigures text) : IsPlain text := by
  intro c hc
  rcases h c hc with hd | rfl | rfl
  · exact ofChar_of_isDigit hd
  · rfl
  · rfl

theorem sound_of_plain {text : List Char} (h : IsPlain text) : Sound text := by
  induction text with
  | nil => rfl
  | cons c text ih =>
    obtain ⟨hc, h⟩ := List.forall_mem_cons.mp h
    have hs : Scanner.step ⟨.outside, []⟩ c = some ⟨.outside, []⟩ := by
      simp only [Scanner.step, hc]
    rw [Sound, Leads, Scanner.scan, hs]
    exact ih h

/-- The number as it is written has digits only. -/
theorem sound_toString (n : Nat) : Sound (toString n).toList := by
  refine sound_of_plain fun c hc => ?_
  rw [Nat.toString_eq_repr, Nat.toList_repr] at hc
  exact ofChar_of_isDigit (Nat.isDigit_of_mem_toDigits (by decide) (by decide) hc)

/-! ## 4. Literals -/

/-- A piece of the inside of a literal. -/
def InLiteral (code : List Char) : Prop :=
  Scanner.scan ⟨.inside, []⟩ code = some ⟨.inside, []⟩

theorem InLiteral.append {a b : List Char} (h : InLiteral a) (h' : InLiteral b) : InLiteral (a ++ b) := by
  rw [InLiteral, Scanner.scan_append, show Scanner.scan _ a = _ from h]
  exact h'

theorem inLiteral_hex4 (n : Nat) : InLiteral (hex4 n) := by
  have digit : ∀ m < 16, InLiteral [hexDigit m] := by
    unfold InLiteral
    decide
  have hm (m : Nat) : InLiteral [hexDigit (m % 16)] := digit _ (Nat.mod_lt _ (by decide))
  exact (hm _).append ((hm _).append ((hm _).append (hm _)))

/-- A character that is written as it is ends no literal and is allowed in one. -/
theorem inLiteral_escapeChar (c : Char) : InLiteral (escapeChar c) := by
  unfold escapeChar
  split
  case h_8 _ hquote hslash _ _ _ _ _ =>
    split
    · exact InLiteral.append (a := ['\\', 'u']) rfl (inLiteral_hex4 _)
    · rename_i hraw
      have hr : isRaw c = false := by simpa [isRaw] using hraw
      have hmark : Mark.ofChar c ≠ .quote ∧ Mark.ofChar c ≠ .backslash := by
        unfold Mark.ofChar
        rw [if_neg hquote, if_neg hslash]
        repeat' split
        all_goals exact ⟨nofun, nofun⟩
      have hs : Scanner.step ⟨.inside, []⟩ c = some ⟨.inside, []⟩ := by
        simp only [Scanner.step, hr]
        split
        · exact absurd ‹_› hmark.1
        · exact absurd ‹_› hmark.2
        · rfl
      rw [InLiteral, Scanner.scan, hs]
      rfl
  all_goals rfl

/-- **The literal of a text is sound**, whatever the text. -/
theorem sound_quoted (text : List Char) : Sound (quoted text) := by
  have body : InLiteral (text.flatMap escapeChar) := by
    induction text with
    | nil => rfl
    | cons c text ih =>
      rw [List.flatMap_cons]
      exact (inLiteral_escapeChar c).append ih
  show (Scanner.scan ⟨.inside, []⟩ (text.flatMap escapeChar ++ ['"'])) = _
  rw [Scanner.scan_append, show Scanner.scan _ _ = _ from body]
  rfl

theorem sound_quote (text : String) : Sound (quote text).toList :=
  Leads.ofList (sound_quoted text.toList)

end Stache.Text
