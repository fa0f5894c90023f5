import Stache.Proofs.Text.Scan

/-!
# Code, part by part

Generated code as string literals and what stands between them.

* `Parts.read?` -- reads code from left to right; there is no reading if a literal is not closed;
* `Parts.read_write` -- clean parts are read back from the code that they make;
* `split_of_scan` -- what the scanner accepts is made of clean parts;
* `Nested`, `closes_of_leads` -- brackets that the scanner matches are nested.
-/

namespace Stache.Text

/-! ## 1. Parts -/

/-- Code as literals and what stands between them. -/
structure Parts where
  /-- What stands before the first literal. -/
  head : List Char
  /-- The literals, each without its quotes and with what stands behind it. -/
  tail : List (List Char × List Char)
  deriving DecidableEq, Repr

namespace Parts

/-- The literals, in order. -/
def literals (parts : Parts) : List (List Char) :=
  parts.tail.map Prod.fst

/-- What stands before, between and behind the literals, in order. -/
def outside (parts : Parts) : List (List Char) :=
  parts.head :: parts.tail.map Prod.snd

mutual

/-- Reads code that begins outside literals. -/
def read? : List Char → Option Parts
  | [] => some ⟨[], []⟩
  | '"' :: code => (readLiteral? code).map fun (literal, rest) => ⟨[], (literal, rest.head) :: rest.tail⟩
  | c :: code => (read? code).map fun rest => ⟨c :: rest.head, rest.tail⟩

/-- Reads code that begins in a literal: the rest of the literal, and the parts behind it. A backslash
    takes the next character with it. -/
def readLiteral? : List Char → Option (List Char × Parts)
  | [] => none
  | '"' :: code => (read? code).map fun rest => ([], rest)
  | '\\' :: c :: code => (readLiteral? code).map fun (literal, rest) => ('\\' :: c :: literal, rest)
  | c :: code => (readLiteral? code).map fun (literal, rest) => (c :: literal, rest)

end

/-- The code that literals make, and what stands behind them. -/
def writeTail : List (List Char × List Char) → List Char
  | [] => []
  | (literal, behind) :: tail => '"' :: (literal ++ '"' :: (behind ++ writeTail tail))

/-- The code that parts make. -/
def write (parts : Parts) : List Char :=
  parts.head ++ writeTail parts.tail

end Parts

/-- What may stand in a literal: characters that need no escape, and escapes. What is escaped is no blank. -/
inductive IsLiteral : List Char → Prop where
  | nil : IsLiteral []
  | char {c : Char} {literal : List Char} (hquote : c ≠ '"') (hslash : c ≠ '\\') (hraw : isRaw c = false)
      (rest : IsLiteral literal) : IsLiteral (c :: literal)
  | escape {c : Char} {literal : List Char} (hraw : isRaw c = false) (hblank : isBlank c = false)
      (rest : IsLiteral literal) : IsLiteral ('\\' :: c :: literal)

theorem IsLiteral.isRaw_eq {literal : List Char} (h : IsLiteral literal) :
    ∀ c ∈ literal, isRaw c = false := by
  induction h with
  | nil => nofun
  | char _ _ hraw _ ih => exact List.forall_mem_cons.mpr ⟨hraw, ih⟩
  | escape hraw _ _ ih => exact List.forall_mem_cons.mpr ⟨rfl, List.forall_mem_cons.mpr ⟨hraw, ih⟩⟩

theorem IsLiteral.append {a b : List Char} (h : IsLiteral a) (h' : IsLiteral b) : IsLiteral (a ++ b) := by
  induction h with
  | nil => exact h'
  | char hquote hslash hraw _ ih => exact .char hquote hslash hraw ih
  | escape hraw hblank _ ih => exact .escape hraw hblank ih

/-- No quotes and no backslashes. -/
def IsOutside (code : List Char) : Prop :=
  ∀ c ∈ code, c ≠ '"' ∧ c ≠ '\\'

namespace Parts

/-- The literals are literals, and nothing else has quotes or backslashes. -/
structure Clean (parts : Parts) : Prop where
  literals : ∀ literal ∈ parts.literals, IsLiteral literal
  outside : ∀ code ∈ parts.outside, IsOutside code

theorem read_append {code : List Char} (h : IsOutside code) (more : List Char) :
    read? (code ++ more) = (read? more).map fun rest => ⟨code ++ rest.head, rest.tail⟩ := by
  induction code with
  | nil => exact Option.map_id'.symm
  | cons c code ih =>
    obtain ⟨hc, h⟩ := List.forall_mem_cons.mp h
    rw [List.cons_append, read?, ih h, Option.map_map]
    · rfl
    · exact hc.1

theorem readLiteral_append {literal : List Char} (h : IsLiteral literal) (more : List Char) :
    readLiteral? (literal ++ '"' :: more) = (read? more).map fun rest => (literal, rest) := by
  induction h with
  | nil => rfl
  | char hquote hslash _ _ ih =>
    rw [List.cons_append, readLiteral?, ih, Option.map_map]
    · rfl
    · exact hquote
    · exact fun _ _ e => absurd e hslash
  | escape _ _ _ ih =>
    rw [List.cons_append, List.cons_append, readLiteral?, ih, Option.map_map]
    rfl

/-- **Clean parts are read back.** -/
theorem read_write {parts : Parts} (h : parts.Clean) : read? parts.write = some parts := by
  obtain ⟨head, tail⟩ := parts
  obtain ⟨hl, ho⟩ := h
  rw [write, read_append (ho _ List.mem_cons_self)]
  have htail : read? (writeTail tail) = some ⟨[], tail⟩ := by
    induction tail with
    | nil => rfl
    | cons part tail ih =>
      obtain ⟨literal, behind⟩ := part
      obtain ⟨hliteral, hl⟩ := List.forall_mem_cons.mp hl
      obtain ⟨hhead, ho⟩ := List.forall_mem_cons.mp ho
      obtain ⟨hbehind, ho⟩ := List.forall_mem_cons.mp ho
      have hrest : read? (behind ++ writeTail tail) = some ⟨behind, tail⟩ := by
        rw [read_append hbehind, ih hl (List.forall_mem_cons.mpr ⟨hhead, ho⟩)]
        simp only [Option.map_some, List.append_nil]
      rw [writeTail, read?, readLiteral_append hliteral, hrest]
      rfl
  rw [htail]
  simp only [Option.map_some, List.append_nil]

/-- An escaped quote does not end a literal. -/
example : read? ['f', '"', '\\', '"', '"', 'g'] = some ⟨['f'], [(['\\', '"'], ['g'])]⟩ := by decide

/-- A literal that is not closed has no reading. -/
example : read? ['f', '"', 'g', '\\', '"'] = none := by decide

end Parts

/-! ## 2. What the scanner does -/

/-- The brackets: what opens one, and what closes it. -/
def brackets : List (Char × Char) :=
  [('(', ')'), ('[', ']'), ('\x7b', '\x7d')]

/-- The character opens or closes a bracket. -/
def isBracket (c : Char) : Bool :=
  brackets.any fun (opener, closer) => c == opener || c == closer

namespace Mark

variable {c closer : Char}

theorem of_quote (h : ofChar c = .quote) : c = '"' := by
  unfold ofChar at h
  split at h
  · assumption
  · repeat' split at h
    all_goals cases h

theorem of_backslash (h : ofChar c = .backslash) : c = '\\' := by
  unfold ofChar at h
  split at h
  · cases h
  · split at h
    · assumption
    · repeat' split at h
      all_goals cases h

theorem of_opening (h : ofChar c = .opening closer) : (c, closer) ∈ brackets := by
  unfold ofChar at h
  repeat' split at h
  all_goals cases h
  all_goals
    subst_vars
    decide

theorem of_none (h : ofChar c = .none) : isBracket c = false := by
  unfold ofChar at h
  repeat' split at h
  all_goals try cases h
  simp_all [isBracket, brackets]

theorem ne_of_ofChar {mark : Mark} (h : ofChar c = mark) (hquote : mark ≠ .quote)
    (hslash : mark ≠ .backslash) : c ≠ '"' ∧ c ≠ '\\' := by
  constructor
  · rintro rfl
    exact hquote h.symm
  · rintro rfl
    exact hslash h.symm

end Mark

namespace Scanner

variable {opened : List Char} {c : Char} {t : Scanner}

/-- What a character does outside literals. -/
theorem step_outside (h : step ⟨.outside, opened⟩ c = some t) :
    (c = '"' ∧ t = ⟨.inside, opened⟩) ∨
      (c ≠ '"' ∧ c ≠ '\\') ∧ ∃ still, t = ⟨.outside, still⟩ ∧
        ((∃ closer, (c, closer) ∈ brackets ∧ still = closer :: opened) ∨ opened = c :: still ∨
          isBracket c = false ∧ still = opened) := by
  simp only [step] at h
  cases hm : Mark.ofChar c with
  | quote =>
    rw [hm] at h
    cases h
    exact .inl ⟨Mark.of_quote hm, rfl⟩
  | backslash =>
    rw [hm] at h
    cases h
  | opening closer =>
    rw [hm] at h
    cases h
    have hne := Mark.ne_of_ofChar hm (by simp) (by simp)
    exact .inr ⟨hne, _, rfl, .inl ⟨closer, Mark.of_opening hm, rfl⟩⟩
  | closing =>
    rw [hm] at h
    cases opened with
    | nil => cases h
    | cons closer still =>
      dsimp only at h
      split at h
      · cases h
        subst_vars
        have hne := Mark.ne_of_ofChar hm (by simp) (by simp)
        exact .inr ⟨hne, _, rfl, .inr (.inl rfl)⟩
      · cases h
  | none =>
    rw [hm] at h
    cases h
    have hne := Mark.ne_of_ofChar hm (by simp) (by simp)
    exact .inr ⟨hne, _, rfl, .inr (.inr ⟨Mark.of_none hm, rfl⟩)⟩

/-- What a character does in a literal. -/
theorem step_inside (h : step ⟨.inside, opened⟩ c = some t) :
    (c = '"' ∧ t = ⟨.outside, opened⟩) ∨ (c = '\\' ∧ t = ⟨.escaped, opened⟩) ∨
      (c ≠ '"' ∧ c ≠ '\\' ∧ isRaw c = false) ∧ t = ⟨.inside, opened⟩ := by
  simp only [step] at h
  split at h
  · cases h
    exact .inl ⟨Mark.of_quote ‹_›, rfl⟩
  · cases h
    exact .inr (.inl ⟨Mark.of_backslash ‹_›, rfl⟩)
  · rename_i hquote hslash
    split at h
    · cases h
    · cases h
      refine .inr (.inr ⟨⟨?_, ?_, eq_false_of_ne_true ‹_›⟩, rfl⟩)
      · rintro rfl
        exact hquote rfl
      · rintro rfl
        exact hslash rfl

/-- What a character does behind a backslash. -/
theorem step_escaped (h : step ⟨.escaped, opened⟩ c = some t) :
    (isRaw c = false ∧ isBlank c = false) ∧ t = ⟨.inside, opened⟩ := by
  simp only [step] at h
  split at h
  · cases h
  · rename_i hc
    cases h
    exact ⟨Bool.or_eq_false_iff.mp (eq_false_of_ne_true hc), rfl⟩

end Scanner

/-! ## 3. From the scanner to the parts -/

/-- The code is made of clean parts, which it begins with where the scanner is, and the code outside the
    literals leads from the brackets that are open to those. -/
def Split (after : List Char) : Scanner → List Char → Prop
  | ⟨.outside, opened⟩, code => ∃ parts : Parts, parts.Clean ∧ parts.write = code ∧
      Leads opened after parts.outside.flatten
  | ⟨.inside, opened⟩, code => ∃ literal, ∃ parts : Parts, IsLiteral literal ∧ parts.Clean ∧
      literal ++ '"' :: parts.write = code ∧ Leads opened after parts.outside.flatten
  | ⟨.escaped, opened⟩, code => ∃ literal, ∃ parts : Parts, IsLiteral ('\\' :: literal) ∧
      parts.Clean ∧ literal ++ '"' :: parts.write = code ∧ Leads opened after parts.outside.flatten

theorem split_step {after : List Char} {s t : Scanner} {c : Char} {code : List Char}
    (h : s.step c = some t) (ht : Split after t code) : Split after s (c :: code) := by
  obtain ⟨place, opened⟩ := s
  cases place with
  | outside =>
    obtain ⟨rfl, rfl⟩ | ⟨hc, still, rfl, _⟩ := Scanner.step_outside h
    · obtain ⟨literal, parts, hl, hp, rfl, hleads⟩ := ht
      refine ⟨⟨[], (literal, parts.head) :: parts.tail⟩, ⟨?_, ?_⟩, rfl, hleads⟩
      · exact List.forall_mem_cons.mpr ⟨hl, hp.literals⟩
      · exact List.forall_mem_cons.mpr ⟨nofun, hp.outside⟩
    · obtain ⟨parts, hp, rfl, hleads⟩ := ht
      obtain ⟨hhead, htail⟩ := List.forall_mem_cons.mp hp.outside
      refine ⟨⟨c :: parts.head, parts.tail⟩, ⟨hp.literals, ?_⟩, rfl, ?_⟩
      · exact List.forall_mem_cons.mpr ⟨List.forall_mem_cons.mpr ⟨hc, hhead⟩, htail⟩
      · show Scanner.scan _ (c :: parts.outside.flatten) = _
        rw [Scanner.scan, h]
        exact hleads
  | inside =>
    obtain ⟨rfl, rfl⟩ | ⟨rfl, rfl⟩ | ⟨⟨hquote, hslash, hraw⟩, rfl⟩ := Scanner.step_inside h
    · obtain ⟨parts, hp, rfl, hleads⟩ := ht
      exact ⟨[], parts, .nil, hp, rfl, hleads⟩
    · obtain ⟨literal, parts, hl, hp, rfl, hleads⟩ := ht
      exact ⟨_, parts, hl, hp, rfl, hleads⟩
    · obtain ⟨literal, parts, hl, hp, rfl, hleads⟩ := ht
      exact ⟨_, parts, .char hquote hslash hraw hl, hp, rfl, hleads⟩
  | escaped =>
    obtain ⟨⟨hraw, hblank⟩, rfl⟩ := Scanner.step_escaped h
    obtain ⟨literal, parts, hl, hp, rfl, hleads⟩ := ht
    exact ⟨_, parts, .escape hraw hblank hl, hp, rfl, hleads⟩

/-- **What the scanner accepts is made of clean parts.** -/
theorem split_of_scan {after : List Char} {s : Scanner} {code : List Char}
    (h : s.scan code = some ⟨.outside, after⟩) : Split after s code := by
  induction code generalizing s with
  | nil =>
    cases h
    exact ⟨⟨[], []⟩, ⟨nofun, List.forall_mem_cons.mpr ⟨nofun, nofun⟩⟩, rfl, .nil after⟩
  | cons c code ih =>
    rw [Scanner.scan] at h
    obtain ⟨t, hstep, h⟩ := Option.bind_eq_some_iff.mp h
    exact split_step hstep (ih h)

/-! ## 4. Nested brackets -/

/-- Brackets are closed in turn, the last one opened first, each by the character that belongs to it. -/
inductive Nested : List Char → Prop where
  | nil : Nested []
  | char {c : Char} {code : List Char} (hc : isBracket c = false) (rest : Nested code) : Nested (c :: code)
  | group {opener closer : Char} {inner code : List Char} (hb : (opener, closer) ∈ brackets)
      (hinner : Nested inner) (rest : Nested code) : Nested (opener :: (inner ++ closer :: code))

/-- The code closes what is open, and its own brackets are nested. -/
def Closes : List Char → List Char → Prop
  | [], code => Nested code
  | closer :: opened, code => ∃ inner rest, code = inner ++ closer :: rest ∧ Nested inner ∧
      Closes opened rest

namespace Closes

variable {opened code : List Char}

theorem char {c : Char} (hc : isBracket c = false) (h : Closes opened code) :
    Closes opened (c :: code) := by
  cases opened with
  | nil => exact .char hc h
  | cons closer opened =>
    obtain ⟨inner, rest, rfl, hinner, hrest⟩ := h
    exact ⟨c :: inner, rest, rfl, .char hc hinner, hrest⟩

theorem group {opener closer : Char} {inner : List Char} (hb : (opener, closer) ∈ brackets)
    (hinner : Nested inner) (h : Closes opened code) :
    Closes opened (opener :: (inner ++ closer :: code)) := by
  cases opened with
  | nil => exact .group hb hinner h
  | cons outer opened =>
    obtain ⟨front, rest, rfl, hfront, hrest⟩ := h
    refine ⟨opener :: (inner ++ closer :: front), rest, ?_, .group hb hinner hfront, hrest⟩
    rw [List.cons_append, List.append_assoc, List.cons_append]

end Closes

/-- **Brackets that the scanner matches are nested.** -/
theorem closes_of_leads {opened code : List Char} (hc : IsOutside code) (h : Leads opened [] code) :
    Closes opened code := by
  induction code generalizing opened with
  | nil =>
    cases h
    exact .nil
  | cons c code ih =>
    obtain ⟨hne, hc⟩ := List.forall_mem_cons.mp hc
    rw [Leads, Scanner.scan] at h
    obtain ⟨t, hstep, h⟩ := Option.bind_eq_some_iff.mp h
    obtain ⟨rfl, _⟩ | ⟨_, still, rfl, hbracket⟩ := Scanner.step_outside hstep
    · exact absurd rfl hne.1
    · have hclose := ih hc h
      obtain ⟨closer, hb, rfl⟩ | rfl | ⟨hplain, rfl⟩ := hbracket
      · obtain ⟨inner, rest, rfl, hinner, hrest⟩ := hclose
        exact .group hb hinner hrest
      · exact ⟨[], code, rfl, .nil, hclose⟩
      · exact .char hplain hclose

/-- **Sound code is made of clean parts**, and outside its literals brackets are nested. -/
theorem Sound.parts {code : List Char} (h : Sound code) :
    ∃ parts : Parts, parts.Clean ∧ parts.write = code ∧ Nested parts.outside.flatten := by
  obtain ⟨parts, hp, hw, hleads⟩ : Split [] ⟨.outside, []⟩ code := split_of_scan h
  have hout : IsOutside parts.outside.flatten := by
    intro c hc
    obtain ⟨part, hpart, hc⟩ := List.mem_flatten.mp hc
    exact hp.outside part hpart c hc
  have hclose : Closes [] parts.outside.flatten := closes_of_leads hout hleads
  exact ⟨parts, hp, hw, hclose⟩

end Stache.Text
