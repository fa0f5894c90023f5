import Stache.Proofs.Text.Parts
import Stache.Text.Compact

/-!
# Compaction, part by part

Compaction does not know where literals begin, but every quote stops a run of blanks and a gap, and the
escapes of a literal stay together, so code is compacted part by part.

* `compacted_append` -- a firm character, such as a quote, separates what the passes do;
* `IsLiteral.compacted` -- a literal stays one;
* `visible_compacted` -- nothing but blanks changes outside literals;
* `Parts.read_compacted` -- the parts of compacted code are the compacted parts;
* `standsAlone` -- a piece with firm ends is compacted on its own;
* `Sound.reading` -- how sound code reads, before and after compaction.
-/

namespace Stache.Text

/-- All three passes over a piece of code. -/
def compacted (code : List Char) : List Char :=
  closeGaps (squeeze (dropBreaks code))

/-! ## 1. Escaped line breaks -/

theorem dropBreaks_cons {c : Char} (hc : c ≠ '\\') (code : List Char) :
    dropBreaks (c :: code) = c :: dropBreaks code := by
  rw [dropBreaks]
  all_goals
    intros
    contradiction

theorem dropBreaks_outside {code : List Char} (h : IsOutside code) (more : List Char) :
    dropBreaks (code ++ more) = code ++ dropBreaks more := by
  induction code with
  | nil => rfl
  | cons c code ih =>
    obtain ⟨hc, h⟩ := List.forall_mem_cons.mp h
    rw [List.cons_append, dropBreaks_cons hc.2, ih h, List.cons_append]

theorem IsOutside.dropBreaks_eq {code : List Char} (h : IsOutside code) : dropBreaks code = code := by
  have := dropBreaks_outside h []
  rwa [List.append_nil, dropBreaks, List.append_nil] at this

/-- An escape is dropped or kept as a whole. -/
theorem dropBreaks_escape (c : Char) (code : List Char) :
    dropBreaks ('\\' :: c :: code) = dropBreaks ['\\', c] ++ dropBreaks code ∧
      (dropBreaks ['\\', c] = [] ∨ dropBreaks ['\\', c] = ['\\', c]) := by
  by_cases hr : c = 'r'
  · subst hr
    exact ⟨rfl, .inl rfl⟩
  by_cases hn : c = 'n'
  · subst hn
    exact ⟨rfl, .inl rfl⟩
  have hkept (code : List Char) : dropBreaks ('\\' :: c :: code) = '\\' :: c :: dropBreaks code := by
    rw [dropBreaks]
    · exact hr
    · exact hn
  refine ⟨?_, .inr (hkept [])⟩
  rw [hkept, hkept]
  rfl

theorem dropBreaks_literal {literal : List Char} (h : IsLiteral literal) (more : List Char) :
    dropBreaks (literal ++ more) = dropBreaks literal ++ dropBreaks more := by
  induction h with
  | nil => rfl
  | char _ hslash _ _ ih =>
    rw [List.cons_append, dropBreaks_cons hslash, dropBreaks_cons hslash, ih, List.cons_append]
  | @escape c literal _ _ _ ih =>
    rw [List.cons_append, List.cons_append, (dropBreaks_escape c (literal ++ more)).1,
      (dropBreaks_escape c literal).1, ih, List.append_assoc]

theorem IsLiteral.dropBreaks {literal : List Char} (h : IsLiteral literal) :
    IsLiteral (dropBreaks literal) := by
  induction h with
  | nil => exact .nil
  | char hquote hslash hraw _ ih =>
    rw [dropBreaks_cons hslash]
    exact .char hquote hslash hraw ih
  | @escape c literal hraw hblank _ ih =>
    obtain ⟨hd, hdropped | hkept⟩ := dropBreaks_escape c literal
    · rw [hd, hdropped]
      exact ih
    · rw [hd, hkept]
      exact .escape hraw hblank ih

/-! ## 2. Runs of blanks -/

theorem squeezeAfter_append {c : Char} (hc : isBlank c = false) (run a b : List Char) :
    squeezeAfter run (a ++ c :: b) = squeezeAfter run a ++ c :: squeeze b := by
  induction a generalizing run with
  | nil =>
    have hstop : squeezeAfter run (c :: b) = squeezedRun run ++ c :: squeeze b := by
      rw [squeezeAfter, if_neg (by rw [hc]; exact Bool.false_ne_true)]
      rfl
    exact hstop
  | cons d a ih =>
    rw [List.cons_append, squeezeAfter, squeezeAfter]
    split
    · exact ih _
    · rw [ih, List.append_assoc, List.cons_append]

/-- Blanks that a literal may hold. -/
def HeldBlanks (run : List Char) : Prop :=
  ∀ c ∈ run, isBlank c = true ∧ isRaw c = false

theorem HeldBlanks.isLiteral {run : List Char} (h : HeldBlanks run) : IsLiteral run := by
  induction run with
  | nil => exact .nil
  | cons c run ih =>
    obtain ⟨⟨hblank, hraw⟩, h⟩ := List.forall_mem_cons.mp h
    refine .char ?_ ?_ hraw (ih h)
    all_goals
      rintro rfl
      cases hblank

theorem mem_squeezedRun {run : List Char} {c : Char} (h : c ∈ squeezedRun run) : c ∈ run ∨ c = ' ' := by
  unfold squeezedRun at h
  split at h
  · exact .inl h
  · exact .inl h
  · exact .inr (List.mem_singleton.mp h)

theorem HeldBlanks.squeezed {run : List Char} (h : HeldBlanks run) : HeldBlanks (squeezedRun run) := by
  intro c hc
  obtain hc | rfl := mem_squeezedRun hc
  · exact h c hc
  · exact ⟨rfl, rfl⟩

theorem isLiteral_squeezeAfter {literal run : List Char} (h : IsLiteral literal) (hrun : HeldBlanks run) :
    IsLiteral (squeezeAfter run literal) := by
  induction h generalizing run with
  | nil => exact hrun.squeezed.isLiteral
  | char hquote hslash hraw _ ih =>
    rw [squeezeAfter]
    split
    · exact ih (List.forall_mem_cons.mpr ⟨⟨‹_›, hraw⟩, hrun⟩)
    · exact hrun.squeezed.isLiteral.append (.char hquote hslash hraw (ih nofun))
  | escape hraw hblank _ ih =>
    -- neither the backslash nor what it takes with it is a blank, so nothing comes between them
    rw [squeezeAfter, if_neg (by decide), squeezeAfter, if_neg (by rw [hblank]; exact Bool.false_ne_true)]
    exact hrun.squeezed.isLiteral.append (.escape hraw hblank (ih nofun))

/-! ## 3. Gaps -/

/-- A character that stops a run of blanks and a gap. -/
structure IsFirm (c : Char) : Prop where
  blank : isBlank c = false
  ne_open : c ≠ '<'
  ne_close : c ≠ '>'

theorem closeGapsAfter_append {c : Char} (hc : IsFirm c) (isOpen : Bool) (held a b : List Char) :
    closeGapsAfter isOpen held (a ++ c :: b) = closeGapsAfter isOpen held a ++ c :: closeGaps b := by
  obtain ⟨hblank, hopen, hclose⟩ := hc
  induction a generalizing isOpen held with
  | nil =>
    have hstop : closeGapsAfter isOpen held (c :: b) = held ++ c :: closeGaps b := by
      rw [closeGapsAfter, if_neg, if_neg hopen, beq_false_of_ne hclose]
      · rfl
      · rw [hblank, Bool.and_false]
        exact Bool.false_ne_true
    exact hstop
  | cons d a ih =>
    rw [List.cons_append, closeGapsAfter, closeGapsAfter]
    split
    · exact ih _ _
    · rw [ih, List.append_assoc, List.cons_append]

/-- A backslash ends a gap and opens none. -/
theorem closeGapsAfter_slash (isOpen : Bool) (held code : List Char) :
    closeGapsAfter isOpen held ('\\' :: code) = held ++ '\\' :: closeGapsAfter false [] code := by
  rw [closeGapsAfter, if_neg, if_neg (by decide)]
  · rfl
  · rw [show isBlank '\\' = false from rfl, Bool.and_false]
    exact Bool.false_ne_true

/-- Where no gap may begin, every character stays. -/
theorem closeGapsAfter_closed (c : Char) (code : List Char) :
    closeGapsAfter false [] (c :: code) = c :: closeGapsAfter (c == '>') [] code := by
  rw [closeGapsAfter, if_neg (by rw [Bool.false_and]; exact Bool.false_ne_true), ite_self]
  rfl

theorem isLiteral_closeGapsAfter {literal held : List Char} {isOpen : Bool} (h : IsLiteral literal)
    (hheld : HeldBlanks held) : IsLiteral (closeGapsAfter isOpen held literal) := by
  induction h generalizing isOpen held with
  | nil => exact hheld.isLiteral
  | char hquote hslash hraw _ ih =>
    rw [closeGapsAfter]
    split
    · rename_i hgap
      have hblank := (Bool.and_eq_true_iff.mp hgap).2
      have hone : HeldBlanks [_] := List.forall_mem_cons.mpr ⟨⟨hblank, hraw⟩, nofun⟩
      exact ih (List.forall_mem_append.mpr ⟨hheld, hone⟩)
    · refine IsLiteral.append ?_ (.char hquote hslash hraw (ih nofun))
      split
      · exact .nil
      · exact hheld.isLiteral
  | @escape c literal hraw hblank _ ih =>
    -- the backslash is no `>`, so what it takes with it comes right behind it
    rw [closeGapsAfter_slash, closeGapsAfter_closed]
    exact hheld.isLiteral.append (.escape hraw hblank (ih nofun))

/-! ## 4. Outside literals -/

/-- The characters that are no blanks. -/
def visible (code : List Char) : List Char :=
  code.filter fun c => !isBlank c

theorem visible_append (a b : List Char) : visible (a ++ b) = visible a ++ visible b :=
  List.filter_append a b

theorem visible_cons {c : Char} (hc : ¬ isBlank c = true) (code : List Char) :
    visible (c :: code) = c :: visible code :=
  List.filter_cons_of_pos (by rw [eq_false_of_ne_true hc]; rfl)

theorem visible_cons_blank {c : Char} (hc : isBlank c = true) (code : List Char) :
    visible (c :: code) = visible code :=
  List.filter_cons_of_neg (by rw [hc]; exact Bool.false_ne_true)

/-- Only blanks. -/
def AllBlank (run : List Char) : Prop :=
  ∀ c ∈ run, isBlank c = true

theorem AllBlank.nil : AllBlank [] :=
  fun _ h => nomatch h

theorem AllBlank.visible_eq {run : List Char} (h : AllBlank run) : visible run = [] := by
  refine List.filter_eq_nil_iff.mpr fun c hc => ?_
  rw [h c hc]
  exact Bool.false_ne_true

theorem AllBlank.squeezed {run : List Char} (h : AllBlank run) : AllBlank (squeezedRun run) := by
  intro c hc
  obtain hc | rfl := mem_squeezedRun hc
  · exact h c hc
  · rfl

theorem visible_squeezeAfter {run : List Char} (hrun : AllBlank run) (code : List Char) :
    visible (squeezeAfter run code) = visible code := by
  induction code generalizing run with
  | nil => exact hrun.squeezed.visible_eq
  | cons c code ih =>
    rw [squeezeAfter]
    split
    · rw [ih (List.forall_mem_cons.mpr ⟨‹_›, hrun⟩), visible_cons_blank ‹_›]
    · rw [visible_append, hrun.squeezed.visible_eq, visible_cons ‹_›, ih .nil, visible_cons ‹_›]
      rfl

theorem visible_closeGapsAfter {isOpen : Bool} {held : List Char} (hheld : AllBlank held)
    (code : List Char) : visible (closeGapsAfter isOpen held code) = visible code := by
  induction code generalizing isOpen held with
  | nil => exact hheld.visible_eq
  | cons c code ih =>
    rw [closeGapsAfter]
    split
    · rename_i hgap
      have hblank := (Bool.and_eq_true_iff.mp hgap).2
      rw [ih (List.forall_mem_append.mpr ⟨hheld, List.forall_mem_cons.mpr ⟨hblank, AllBlank.nil⟩⟩),
        visible_cons_blank hblank]
    · have hfront : visible (if c = '<' then [] else held) = [] := by
        split
        · rfl
        · exact hheld.visible_eq
      rw [visible_append, hfront, List.nil_append]
      show visible ([c] ++ closeGapsAfter (c == '>') [] code) = visible ([c] ++ code)
      rw [visible_append, visible_append, ih .nil]

theorem visible_compacted {code : List Char} (h : IsOutside code) :
    visible (compacted code) = visible code := by
  rw [compacted, h.dropBreaks_eq]
  exact (visible_closeGapsAfter .nil _).trans (visible_squeezeAfter .nil _)

theorem IsOutside.compacted {code : List Char} (h : IsOutside code) : IsOutside (compacted code) := by
  have hkept (c : Char) (hb : isBlank c = false) (hc : c ∈ Text.compacted code) : c ∈ code := by
    have : c ∈ visible (Text.compacted code) := List.mem_filter.mpr ⟨hc, by rw [hb]; rfl⟩
    rw [visible_compacted h] at this
    exact (List.mem_filter.mp this).1
  intro c hc
  constructor
  · rintro rfl
    exact (h _ (hkept _ rfl hc)).1 rfl
  · rintro rfl
    exact (h _ (hkept _ rfl hc)).2 rfl

/-! ## 5. All parts -/

theorem IsLiteral.compacted {literal : List Char} (h : IsLiteral literal) : IsLiteral (compacted literal) :=
  isLiteral_closeGapsAfter (isLiteral_squeezeAfter h.dropBreaks nofun) nofun

/-- **A firm character separates what the passes do**, where no escape is cut. -/
theorem compacted_append {part : List Char} {c : Char} (hc : IsFirm c) {more : List Char}
    (h : dropBreaks (part ++ c :: more) = dropBreaks part ++ c :: dropBreaks more) :
    compacted (part ++ c :: more) = compacted part ++ c :: compacted more := by
  rw [compacted, h, squeeze, squeezeAfter_append hc.blank, closeGaps, closeGapsAfter_append hc]
  rfl

/-- A firm character at the beginning stays there. -/
theorem compact_cons {c : Char} (hc : IsFirm c) (hslash : c ≠ '\\') {text : String} {code : List Char}
    (h : text.toList = c :: code) : ∃ rest, (compact text).toList = c :: rest := by
  rw [compact, String.toList_ofList, h]
  exact ⟨_, @compacted_append [] c hc code (dropBreaks_cons hslash code)⟩

theorem isFirm_quote : IsFirm '"' := ⟨rfl, by decide, by decide⟩

namespace Parts

/-- The parts, compacted one by one. -/
def compacted (parts : Parts) : Parts :=
  ⟨Text.compacted parts.head, parts.tail.map (Prod.map Text.compacted Text.compacted)⟩

theorem literals_compacted (parts : Parts) :
    parts.compacted.literals = parts.literals.map Text.compacted := by
  simp only [literals, compacted, List.map_map]
  rfl

theorem outside_compacted (parts : Parts) :
    parts.compacted.outside = parts.outside.map Text.compacted := by
  simp only [outside, compacted, List.map_map, List.map_cons]
  rfl

theorem Clean.compacted {parts : Parts} (h : parts.Clean) : parts.compacted.Clean := by
  constructor
  · rw [literals_compacted]
    exact List.forall_mem_map.mpr fun literal hl => (h.literals literal hl).compacted
  · rw [outside_compacted]
    exact List.forall_mem_map.mpr fun code hc => (h.outside code hc).compacted

theorem compacted_write {parts : Parts} (h : parts.Clean) :
    Text.compacted parts.write = parts.compacted.write := by
  obtain ⟨head, tail⟩ := parts
  induction tail generalizing head with
  | nil => simp only [write, writeTail, List.append_nil, compacted, List.map_nil]
  | cons part tail ih =>
    obtain ⟨literal, behind⟩ := part
    obtain ⟨hliteral, hl⟩ := List.forall_mem_cons.mp h.literals
    obtain ⟨hhead, ho⟩ := List.forall_mem_cons.mp h.outside
    have hquote (more : List Char) : dropBreaks ('"' :: more) = '"' :: dropBreaks more :=
      dropBreaks_cons (by decide) more
    show Text.compacted (head ++ '"' :: (literal ++ '"' :: write ⟨behind, tail⟩)) = _
    rw [compacted_append isFirm_quote, compacted_append isFirm_quote, ih behind ⟨hl, ho⟩]
    · rfl
    · rw [dropBreaks_literal hliteral, hquote]
    · rw [dropBreaks_outside hhead, hquote, hhead.dropBreaks_eq]

theorem dropBreaks_write {parts : Parts} (h : parts.Clean) (more : List Char) :
    dropBreaks (parts.write ++ more) = dropBreaks parts.write ++ dropBreaks more := by
  have hquote (code : List Char) : dropBreaks ('"' :: code) = '"' :: dropBreaks code :=
    dropBreaks_cons (by decide) code
  obtain ⟨head, tail⟩ := parts
  induction tail generalizing head with
  | nil =>
    obtain ⟨hhead, _⟩ := List.forall_mem_cons.mp h.outside
    rw [write, writeTail, List.append_nil, dropBreaks_outside hhead, hhead.dropBreaks_eq]
  | cons part tail ih =>
    obtain ⟨literal, behind⟩ := part
    obtain ⟨hliteral, hl⟩ := List.forall_mem_cons.mp h.literals
    obtain ⟨hhead, ho⟩ := List.forall_mem_cons.mp h.outside
    show dropBreaks ((head ++ '"' :: (literal ++ '"' :: write ⟨behind, tail⟩)) ++ more) =
      dropBreaks (head ++ '"' :: (literal ++ '"' :: write ⟨behind, tail⟩)) ++ dropBreaks more
    simp only [List.append_assoc, List.cons_append, dropBreaks_outside hhead, hquote,
      dropBreaks_literal hliteral, ih behind ⟨hl, ho⟩]

/-- **The parts of compacted code are the compacted parts.** -/
theorem read_compacted {parts : Parts} (h : parts.Clean) :
    read? (Text.compacted parts.write) = some parts.compacted := by
  rw [compacted_write h, read_write h.compacted]

end Parts

/-! ## 6. Pieces of code -/

section Pieces

variable {before after : List Char} {front : List Char}

/-- Where the scanner is outside literals, no escape is cut. -/
theorem Leads.dropBreaks (h : Leads before after front) (more : List Char) :
    dropBreaks (front ++ more) = Text.dropBreaks front ++ Text.dropBreaks more := by
  obtain ⟨parts, hp, rfl, _⟩ : Split after ⟨.outside, before⟩ front := split_of_scan h
  exact Parts.dropBreaks_write hp more

theorem Leads.compacted_append (h : Leads before after front) {c : Char} (hc : IsFirm c)
    (hslash : c ≠ '\\') (more : List Char) :
    compacted (front ++ c :: more) = compacted front ++ c :: compacted more :=
  Text.compacted_append hc (by rw [h.dropBreaks, dropBreaks_cons hslash])

/-- The piece is compacted on its own, wherever it stands outside literals. -/
def StandsAlone (piece : List Char) : Prop :=
  ∀ ⦃before after front : List Char⦄, Leads before after front → ∀ back,
    compacted (front ++ piece ++ back) = compacted front ++ compacted piece ++ compacted back

/-- **A piece with firm ends stands alone.** -/
theorem standsAlone {c d : Char} {inner rest : List Char} (hc : IsFirm c) (hd : IsFirm d)
    (hslash : c ≠ '\\' ∧ d ≠ '\\') (h : Leads [] inner (c :: rest)) :
    StandsAlone (c :: (rest ++ [d])) := by
  have hpiece : compacted (c :: (rest ++ [d])) = c :: compacted rest ++ [d] := by
    have hlast := h.compacted_append hd hslash.2 []
    have hfirst := (Leads.nil []).compacted_append hc hslash.1 rest
    rw [List.nil_append] at hfirst
    rw [List.cons_append, hfirst] at hlast
    exact hlast
  intro before after front hf back
  have hinner : Leads before (inner ++ after) (front ++ c :: rest) := hf.append (h.frame after)
  have hcode : front ++ c :: (rest ++ [d]) ++ back = (front ++ c :: rest) ++ d :: back := by
    simp only [List.append_assoc, List.cons_append, List.nil_append]
  rw [hcode, hinner.compacted_append hd hslash.2, hf.compacted_append hc hslash.1, hpiece]
  simp only [List.append_assoc, List.cons_append, List.nil_append]

theorem StandsAlone.compact_append {front piece : String} (h : StandsAlone piece.toList)
    (hf : Leads before after front.toList) (back : String) :
    compact (front ++ piece ++ back) = compact front ++ compact piece ++ compact back := by
  have hlist : compacted (front ++ piece ++ back).toList =
      compacted front.toList ++ compacted piece.toList ++ compacted back.toList := by
    rw [String.toList_append, String.toList_append, h hf]
  unfold compact
  rw [← String.ofList_append, ← String.ofList_append]
  exact congrArg String.ofList hlist

/-- **What stands alone** is found again, compacted, in the compacted code. -/
theorem StandsAlone.compact {piece code : String} (h : StandsAlone piece.toList) (hs : Stands piece code) :
    ∃ front back, code = front ++ piece ++ back ∧
      compact code = compact front ++ compact piece ++ compact back := by
  obtain ⟨front, back, between, hf, rfl⟩ := hs
  exact ⟨front, back, rfl, h.compact_append hf back⟩

end Pieces

/-! ## 7. How code reads -/

/-- How code and its compaction read, as these parts. -/
structure Reading (code : String) (parts small : Parts) : Prop where
  /-- Every literal of the code is closed. -/
  read : Parts.read? code.toList = some parts
  /-- No literal holds a character that has to be escaped. -/
  allowed : ∀ literal ∈ parts.literals, ∀ c ∈ literal, isRaw c = false
  /-- Outside literals, brackets are nested. -/
  nested : Nested parts.outside.flatten
  /-- Every literal of the compacted code is closed. -/
  read_compact : Parts.read? (compact code).toList = some small
  /-- Its literals are those of the code, compacted one by one. -/
  literals : small.literals = parts.literals.map compacted
  /-- Between them stand the characters that stood there, except for blanks. -/
  outside : small.outside.map visible = parts.outside.map visible

/-- **Sound code reads well**, before and after compaction. -/
theorem Sound.reading {code : String} (h : Sound code.toList) :
    ∃ parts small, Reading code parts small := by
  obtain ⟨parts, hp, hw, hn⟩ := h.parts
  refine ⟨parts, parts.compacted, ?_, ?_, hn, ?_, parts.literals_compacted, ?_⟩
  · rw [← hw, Parts.read_write hp]
  · exact fun literal hl => (hp.literals literal hl).isRaw_eq
  · rw [compact, String.toList_ofList, ← hw]
    exact Parts.read_compacted hp
  · rw [parts.outside_compacted, List.map_map]
    exact List.map_congr_left fun code hc => visible_compacted (hp.outside code hc)

end Stache.Text
