import Mathlib.Data.List.Chain
import Stache.Proofs.Text.Compacted

/-!
# What compaction makes of a literal

Compaction does not stop at literals, so a text that is written into code may come out as another one. The
three passes over the literal of a text are three passes over the text itself: `tidied` is what comes out.

* `NoPairs`, `noPairs_compacted` -- in compacted code no two blanks stand side by side;
* `compacted_quoted` -- compaction makes of the literal of a text the literal of the tidied text;
* `tidied_eq_self_iff` -- a text comes out as it was exactly if it is tidy.
-/

namespace Stache.Text

/-! ## 1. The passes, for any kind of blank -/

section Kinds

variable (p : Char → Bool)

/-- The text with runs of two or more blanks written as one space, after a run that is still open. -/
def squeezeOf (run : List Char) : List Char → List Char
  | [] => squeezedRun run
  | c :: text =>
    if p c then squeezeOf (c :: run) text else squeezedRun run ++ c :: squeezeOf [] text

/-- The text without blanks between `>` and `<`, after the blanks `held` that may be such. -/
def closeGapsOf (isOpen : Bool) (held : List Char) : List Char → List Char
  | [] => held
  | c :: text =>
    if isOpen && p c then closeGapsOf true (held ++ [c]) text
    else (if c = '<' then [] else held) ++ c :: closeGapsOf (c == '>') [] text

theorem squeezeOf_isBlank (run code : List Char) : squeezeOf isBlank run code = squeezeAfter run code := by
  induction code generalizing run with
  | nil => rfl
  | cons c code ih => rw [squeezeOf, squeezeAfter, ih, ih]

theorem closeGapsOf_isBlank (isOpen : Bool) (held code : List Char) :
    closeGapsOf isBlank isOpen held code = closeGapsAfter isOpen held code := by
  induction code generalizing isOpen held with
  | nil => rfl
  | cons c code ih => rw [closeGapsOf, closeGapsAfter, ih, ih]

/-! ## 2. No two blanks side by side -/

/-- No two blanks stand side by side. -/
def NoPairs (text : List Char) : Prop :=
  text.IsChain fun c d => ¬ (p c = true ∧ p d = true)

variable {p}

theorem NoPairs.tail {c : Char} {text : List Char} (h : NoPairs p (c :: text)) : NoPairs p text :=
  List.IsChain.tail h

theorem NoPairs.cons {c : Char} (hc : ¬ p c = true) {text : List Char} (h : NoPairs p text) :
    NoPairs p (c :: text) :=
  List.isChain_cons.mpr ⟨fun _ _ hp => hc hp.1, h⟩

/-- What is no blank may stand between any two texts. -/
theorem NoPairs.append {a b : List Char} {c : Char} (hc : ¬ p c = true) (ha : NoPairs p a)
    (hb : NoPairs p b) : NoPairs p (a ++ c :: b) :=
  List.isChain_append.mpr ⟨ha, hb.cons hc, fun _ _ d hd hp => by
    cases hd
    exact hc hp.2⟩

/-- Blanks among which no two stand side by side are one at most. -/
theorem NoPairs.eq_nil_or_one {run text : List Char} (hrun : ∀ c ∈ run, p c = true)
    (h : NoPairs p (run ++ text)) : run = [] ∨ ∃ c, run = [c] := by
  match run with
  | [] => exact .inl rfl
  | [c] => exact .inr ⟨c, rfl⟩
  | c :: d :: run =>
    obtain ⟨hc, hrun⟩ := List.forall_mem_cons.mp hrun
    exact absurd ⟨hc, hrun d List.mem_cons_self⟩ (List.isChain_cons_cons.mp h).1

theorem noPairs_squeezedRun (run : List Char) : NoPairs p (squeezedRun run) := by
  unfold squeezedRun
  split
  · exact .nil
  · exact .singleton _
  · exact .singleton _

theorem mem_squeezeOf {run text : List Char} {c : Char} (h : c ∈ squeezeOf p run text) :
    c ∈ run ∨ c ∈ text ∨ c = ' ' := by
  induction text generalizing run with
  | nil =>
    obtain h | h := mem_squeezedRun h
    · exact .inl h
    · exact .inr (.inr h)
  | cons d text ih =>
    rw [squeezeOf] at h
    split at h
    · obtain h | h | h := ih h
      · obtain rfl | h := List.mem_cons.mp h
        · exact .inr (.inl List.mem_cons_self)
        · exact .inl h
      · exact .inr (.inl (List.mem_cons_of_mem d h))
      · exact .inr (.inr h)
    · obtain h | h := List.mem_append.mp h
      · obtain h | h := mem_squeezedRun h
        · exact .inl h
        · exact .inr (.inr h)
      · obtain rfl | h := List.mem_cons.mp h
        · exact .inr (.inl List.mem_cons_self)
        · obtain h | h | h := ih h
          · cases h
          · exact .inr (.inl (List.mem_cons_of_mem d h))
          · exact .inr (.inr h)

theorem noPairs_squeezeOf (run text : List Char) : NoPairs p (squeezeOf p run text) := by
  induction text generalizing run with
  | nil => exact noPairs_squeezedRun run
  | cons c text ih =>
    rw [squeezeOf]
    split
    · exact ih _
    · exact .append ‹_› (noPairs_squeezedRun run) (ih [])

theorem mem_closeGapsOf {isOpen : Bool} {held text : List Char} {c : Char}
    (h : c ∈ closeGapsOf p isOpen held text) : c ∈ held ∨ c ∈ text := by
  induction text generalizing isOpen held with
  | nil => exact .inl h
  | cons d text ih =>
    rw [closeGapsOf] at h
    split at h
    · obtain h | h := ih h
      · obtain h | h := List.mem_append.mp h
        · exact .inl h
        · exact .inr (List.mem_singleton.mp h ▸ List.mem_cons_self)
      · exact .inr (List.mem_cons_of_mem d h)
    · obtain h | h := List.mem_append.mp h
      · split at h
        · cases h
        · exact .inl h
      · obtain rfl | h := List.mem_cons.mp h
        · exact .inr List.mem_cons_self
        · obtain h | h := ih h
          · cases h
          · exact .inr (List.mem_cons_of_mem d h)

/-- **To close a gap brings no two blanks together**: the angle brackets are between them. -/
theorem noPairs_closeGapsOf {isOpen : Bool} {held text : List Char} (ho : held ≠ [] → isOpen = true)
    (h : NoPairs p (held ++ text)) (hclose : ¬ p '>' = true) :
    NoPairs p (closeGapsOf p isOpen held text) := by
  induction text generalizing isOpen held with
  | nil => rwa [List.append_nil] at h
  | cons c text ih =>
    obtain ⟨hheld, hc, hjoin⟩ := List.isChain_append.mp h
    have hrest : NoPairs p (closeGapsOf p (c == '>') [] text) := ih (fun hne => absurd rfl hne) hc.tail
    rw [closeGapsOf]
    split
    · refine ih (fun _ => rfl) ?_
      rwa [List.append_assoc]
    · rename_i hstays
      have hlater : NoPairs p (c :: closeGapsOf p (c == '>') [] text) := by
        by_cases hb : p c = true
        · -- a blank that stays is followed by what followed it
          have hgt : (c == '>') = false := beq_false_of_ne fun e => hclose (e ▸ hb)
          rw [hgt] at hrest ⊢
          cases text with
          | nil => exact .singleton c
          | cons d text =>
            rw [closeGapsOf, if_neg (by rw [Bool.false_and]; exact Bool.false_ne_true), ite_self,
              List.nil_append] at hrest ⊢
            exact List.isChain_cons_cons.mpr ⟨(List.isChain_cons_cons.mp hc).1, hrest⟩
        · exact hrest.cons hb
      split
      · exact hlater
      · refine List.isChain_append.mpr ⟨hheld, hlater, fun x hx d hd => ?_⟩
        cases hd
        exact hjoin x hx c rfl

theorem squeezeOf_eq_self {run text : List Char} (hrun : ∀ c ∈ run, p c = true)
    (h : NoPairs p (run ++ text)) : squeezeOf p run text = run ++ text := by
  induction text generalizing run with
  | nil =>
    obtain rfl | ⟨c, rfl⟩ := h.eq_nil_or_one hrun
    · rfl
    · rfl
  | cons c text ih =>
    have hrest : NoPairs p (c :: text) := (List.isChain_append.mp h).2.1
    rw [squeezeOf]
    split
    · -- a run that is open already would go on
      rename_i hc
      obtain rfl | ⟨d, rfl⟩ := h.eq_nil_or_one hrun
      · exact ih (List.forall_mem_singleton.mpr hc) hrest
      · have hd := hrun d List.mem_cons_self
        exact absurd ⟨hd, hc⟩ (List.isChain_cons_cons.mp h).1
    · have hlater : squeezeOf p [] text = text := ih (List.forall_mem_nil _) hrest.tail
      rw [hlater]
      obtain rfl | ⟨d, rfl⟩ := h.eq_nil_or_one hrun
      · rfl
      · rfl

/-! ## 3. No blank between angle brackets -/

/-- No blank stands between `>` and `<`. -/
def NoGaps (p : Char → Bool) (text : List Char) : Prop :=
  ∀ c, p c = true → ¬ ['>', c, '<'] <:+: text

theorem NoGaps.cons {c : Char} (hc : c ≠ '>') {text : List Char} (h : NoGaps p text) :
    NoGaps p (c :: text) := by
  intro d hd hgap
  obtain hfirst | hrest := List.infix_cons_iff.mp hgap
  · exact hc (List.cons_prefix_cons.mp hfirst).1.symm
  · exact h d hd hrest

/-- What is no blank may follow a `>`. -/
theorem NoGaps.close {c : Char} (hc : ¬ p c = true) {text : List Char} (h : NoGaps p (c :: text)) :
    NoGaps p ('>' :: c :: text) := by
  intro d hd hgap
  obtain hfirst | hrest := List.infix_cons_iff.mp hgap
  · obtain ⟨rfl, _⟩ := List.cons_prefix_cons.mp (List.cons_prefix_cons.mp hfirst).2
    exact hc hd
  · exact h d hd hrest

/-- A blank may follow a `>` if no `<` comes next. -/
theorem NoGaps.behind {c d : Char} (hc : c ≠ '<') {text : List Char} (h : NoGaps p (d :: c :: text)) :
    NoGaps p ('>' :: d :: c :: text) := by
  intro x hx hgap
  obtain hfirst | hrest := List.infix_cons_iff.mp hgap
  · obtain ⟨_, hlast⟩ := List.cons_prefix_cons.mp (List.cons_prefix_cons.mp hfirst).2
    exact hc (List.cons_prefix_cons.mp hlast).1.symm
  · exact h x hx hrest

theorem NoGaps.of_suffix {a b : List Char} (h : NoGaps p (a ++ b)) : NoGaps p b :=
  fun c hc hgap => h c hc (hgap.trans (List.suffix_append a b).isInfix)

/-- What is open before the blanks that are held. -/
def gapFront (isOpen : Bool) : List Char :=
  if isOpen then ['>'] else []

/-- **No gap is left** behind what is open. -/
theorem noGaps_closeGapsOf {isOpen : Bool} {held text : List Char} (ho : held ≠ [] → isOpen = true)
    (hheld : ∀ c ∈ held, p c = true) (h : NoPairs p (held ++ text)) (hclose : ¬ p '>' = true) :
    NoGaps p (gapFront isOpen ++ closeGapsOf p isOpen held text) := by
  induction text generalizing isOpen held with
  | nil =>
    intro c hc hgap
    have hlen : 3 ≤ (gapFront isOpen ++ held).length := hgap.length_le
    have hfront : (gapFront isOpen).length ≤ 1 := by cases isOpen <;> decide
    have hheld : held.length ≤ 1 := by
      obtain rfl | ⟨d, rfl⟩ := h.eq_nil_or_one hheld
      · exact Nat.zero_le 1
      · exact Nat.le_refl 1
    rw [List.length_append] at hlen
    omega
  | cons c text ih =>
    have hc := (List.isChain_append.mp h).2.1
    rw [closeGapsOf]
    split
    · rename_i hgap
      obtain ⟨rfl, hblank⟩ := Bool.and_eq_true_iff.mp hgap
      refine ih (fun _ => rfl) (List.forall_mem_append.mpr ⟨hheld, List.forall_mem_singleton.mpr hblank⟩) ?_
      rwa [List.append_assoc]
    · rename_i hstays
      have hrest : NoGaps p (gapFront (c == '>') ++ closeGapsOf p (c == '>') [] text) :=
        ih (fun hne => absurd rfl hne) nofun hc.tail
      have hlater : NoGaps p (c :: closeGapsOf p (c == '>') [] text) := by
        by_cases hgt : c = '>'
        · subst hgt
          exact hrest
        · rw [beq_false_of_ne hgt] at hrest ⊢
          exact hrest.cons hgt
      cases isOpen with
      | false =>
        obtain rfl : held = [] := Decidable.byContradiction fun hne => Bool.false_ne_true (ho hne)
        rw [ite_self]
        exact hlater
      | true =>
        rw [Bool.true_and] at hstays
        show NoGaps p ('>' :: ((if c = '<' then [] else held) ++ c :: _))
        split
        · exact hlater.close hstays
        · rename_i hopen
          obtain rfl | ⟨d, rfl⟩ := h.eq_nil_or_one hheld
          · exact hlater.close hstays
          · have hd : d ≠ '>' := fun e => hclose (e ▸ hheld d List.mem_cons_self)
            exact (hlater.cons hd).behind hopen

/-- Nothing is taken away where there is no gap. -/
theorem closeGapsOf_eq_self {isOpen : Bool} {held text : List Char} (ho : held ≠ [] → isOpen = true)
    (hheld : ∀ c ∈ held, p c = true) (h : NoPairs p (held ++ text))
    (hg : NoGaps p (gapFront isOpen ++ (held ++ text))) :
    closeGapsOf p isOpen held text = held ++ text := by
  induction text generalizing isOpen held with
  | nil => rw [closeGapsOf, List.append_nil]
  | cons c text ih =>
    have hc := (List.isChain_append.mp h).2.1
    rw [closeGapsOf]
    split
    · rename_i hgap
      obtain ⟨rfl, hblank⟩ := Bool.and_eq_true_iff.mp hgap
      rw [ih (fun _ => rfl) (List.forall_mem_append.mpr ⟨hheld, List.forall_mem_singleton.mpr hblank⟩)]
      · rw [List.append_assoc]
        rfl
      · rwa [List.append_assoc]
      · rwa [List.append_assoc]
    · have hrest : closeGapsOf p (c == '>') [] text = text := by
        refine ih (fun hne => absurd rfl hne) nofun hc.tail ?_
        have hg : NoGaps p (c :: text) := by
          rw [← List.append_assoc] at hg
          exact hg.of_suffix
        by_cases hgt : c = '>'
        · subst hgt
          exact hg
        · rw [beq_false_of_ne hgt]
          exact hg.of_suffix (a := [c])
      have hfront : (if c = '<' then [] else held) = held := by
        split
        · rename_i hopen
          subst hopen
          obtain rfl | ⟨d, rfl⟩ := h.eq_nil_or_one hheld
          · rfl
          · have hgap : ['>', d, '<'] <:+: gapFront isOpen ++ ([d] ++ '<' :: text) := by
              rw [ho (List.cons_ne_nil d [])]
              exact List.IsPrefix.isInfix ⟨text, rfl⟩
            exact absurd hgap (hg d (hheld d List.mem_cons_self))
        · rfl
      rw [hrest, hfront]

end Kinds

/-- **In compacted code no two blanks stand side by side.** -/
theorem noPairs_compacted (code : List Char) : NoPairs isBlank (compacted code) := by
  rw [compacted, closeGaps, squeeze, ← squeezeOf_isBlank, ← closeGapsOf_isBlank]
  exact noPairs_closeGapsOf (fun h => absurd rfl h) (noPairs_squeezeOf [] _) (by decide)

theorem dropBreaks_sublist (code : List Char) : (dropBreaks code).Sublist code := by
  fun_induction dropBreaks code with
  | case1 => exact .slnil
  | case2 code ih => exact (ih.cons _).cons _
  | case3 code ih => exact (ih.cons _).cons _
  | case4 c code _ _ ih => exact (ih.cons_cons _).cons_cons _
  | case5 c code _ _ _ ih => exact ih.cons_cons _

/-- **Compaction brings in no character** but the space. -/
theorem mem_compacted {code : List Char} {c : Char} (h : c ∈ compacted code) : c ∈ code ∨ c = ' ' := by
  rw [compacted, closeGaps, squeeze, ← squeezeOf_isBlank, ← closeGapsOf_isBlank] at h
  rcases mem_closeGapsOf h with h | h
  · cases h
  rcases mem_squeezeOf h with h | h | h
  · cases h
  · exact .inl ((dropBreaks_sublist code).subset h)
  · exact .inr h

/-! ## 4. Texts, tidied -/

/-- A blank that is written as it is in a literal. -/
def isHeld (c : Char) : Bool :=
  isBlank c && !isRaw c

/-- A line break, which is written as an escape that compaction drops. -/
def isLineBreak (c : Char) : Bool :=
  c == '\n' || c == '\r'

/-- What compaction makes of a text that is written as a literal: line breaks are gone, runs of two or more
    blanks are one space, and there are none between `>` and `<`. -/
def tidied (text : List Char) : List Char :=
  closeGapsOf isHeld false [] (squeezeOf isHeld [] (text.filter fun c => !isLineBreak c))

/-- How a text is written, between the quotes. -/
def escaped (text : List Char) : List Char :=
  text.flatMap escapeChar

theorem escaped_append (a b : List Char) : escaped (a ++ b) = escaped a ++ escaped b :=
  List.flatMap_append

instance (c : Char) : Decidable (IsFirm c) :=
  decidable_of_iff (isBlank c = false ∧ c ≠ '<' ∧ c ≠ '>')
    ⟨fun ⟨hb, ho, hc⟩ => ⟨hb, ho, hc⟩, fun ⟨hb, ho, hc⟩ => ⟨hb, ho, hc⟩⟩

/-- How a character is written in a literal. -/
inductive WrittenAs (c : Char) : List Char → Prop where
  /-- As it is. -/
  | plain (hslash : c ≠ '\\') (hheld : isHeld c = isBlank c) (hbreak : isLineBreak c = false) :
    WrittenAs c [c]
  /-- As an escape that compaction drops. -/
  | lineBreak {d : Char} (hheld : isHeld c = false) (hbreak : isLineBreak c = true)
    (hd : d = 'n' ∨ d = 'r') : WrittenAs c ['\\', d]
  /-- As an escape that compaction keeps. -/
  | escape {d : Char} {more : List Char} (hheld : isHeld c = false) (hbreak : isLineBreak c = false)
    (hd : d ≠ 'n' ∧ d ≠ 'r') (hfirm : ∀ x ∈ d :: more, IsFirm x) (hout : IsOutside more) :
    WrittenAs c ('\\' :: d :: more)

theorem hexDigit_firm : ∀ m < 16, IsFirm (hexDigit m) ∧ hexDigit m ≠ '"' ∧ hexDigit m ≠ '\\' := by
  decide

theorem writtenAs_escapeChar (c : Char) : WrittenAs c (escapeChar c) := by
  unfold escapeChar
  split
  case h_8 _ hquote hslash hn hr _ _ _ =>
    split
    · rename_i hraw
      have hhex : ∀ x ∈ hex4 c.toNat, IsFirm x ∧ x ≠ '"' ∧ x ≠ '\\' := by
        intro x hx
        have hm (n : Nat) := hexDigit_firm (n % 16) (Nat.mod_lt n (by decide))
        simp only [hex4, List.mem_cons, List.not_mem_nil, or_false] at hx
        rcases hx with rfl | rfl | rfl | rfl
        all_goals exact hm _
      refine .escape ?_ ?_ (by decide) ?_ fun x hx => (hhex x hx).2
      · unfold isHeld isRaw
        rw [hraw, Bool.not_true, Bool.and_false]
      · unfold isLineBreak
        rw [beq_false_of_ne hn, beq_false_of_ne hr]
        rfl
      · exact List.forall_mem_cons.mpr ⟨by decide, fun x hx => (hhex x hx).1⟩
    · rename_i hraw
      refine .plain hslash ?_ ?_
      · unfold isHeld isRaw
        rw [eq_false_of_ne_true hraw, Bool.not_false, Bool.and_true]
      · unfold isLineBreak
        rw [beq_false_of_ne hn, beq_false_of_ne hr]
        rfl
  case h_3 => exact .lineBreak rfl rfl (.inl rfl)
  case h_4 => exact .lineBreak rfl rfl (.inr rfl)
  all_goals exact .escape rfl rfl (by decide) (List.forall_mem_cons.mpr ⟨by decide, nofun⟩) nofun

/-! ## 5. The passes over the literal of a text -/

/-- The first pass drops the line breaks. -/
theorem dropBreaks_escaped (text more : List Char) :
    dropBreaks (escaped text ++ more) =
      escaped (text.filter fun c => !isLineBreak c) ++ dropBreaks more := by
  induction text with
  | nil => rfl
  | cons c text ih =>
    have hw := writtenAs_escapeChar c
    unfold escaped at *
    rw [List.flatMap_cons, List.append_assoc]
    generalize hcode : escapeChar c = code at hw ⊢
    cases hw with
    | plain hslash _ hbreak =>
      rw [List.filter_cons_of_pos (by rw [hbreak]; rfl), List.flatMap_cons, hcode, List.cons_append,
        dropBreaks_cons hslash, List.nil_append, ih]
      rfl
    | lineBreak _ hbreak hd =>
      rw [List.filter_cons_of_neg (by rw [hbreak]; exact Bool.false_ne_true), ← ih]
      rcases hd with rfl | rfl
      all_goals rfl
    | escape _ hbreak hd _ hout =>
      rw [List.filter_cons_of_pos (by rw [hbreak]; rfl), List.flatMap_cons, hcode, List.append_assoc, ← ih,
        List.cons_append, List.cons_append, dropBreaks, dropBreaks_outside hout]
      · rfl
      · exact hd.2
      · exact hd.1

theorem isHeld_iff {c : Char} : isHeld c = true ↔ isBlank c = true ∧ isRaw c = false := by
  rw [isHeld, Bool.and_eq_true, Bool.not_eq_true']

/-- Blanks that are held are written as they are. -/
theorem HeldBlanks.escaped_eq {run : List Char} (h : HeldBlanks run) : escaped run = run := by
  induction run with
  | nil => rfl
  | cons c run ih =>
    obtain ⟨hc, h⟩ := List.forall_mem_cons.mp h
    have hheld := isHeld_iff.mpr hc
    have hw := writtenAs_escapeChar c
    unfold escaped at *
    rw [List.flatMap_cons, ih h]
    generalize escapeChar c = code at hw ⊢
    cases hw with
    | plain => rfl
    | lineBreak hnot | escape hnot =>
      rw [hnot] at hheld
      cases hheld

/-- A character is written as it is, or firmly. -/
theorem WrittenAs.firm {c : Char} {code : List Char} (h : WrittenAs c code) :
    (code = [c] ∧ isHeld c = isBlank c) ∨
      isHeld c = false ∧ ∃ d more, code = d :: more ∧ ∀ x ∈ d :: more, IsFirm x := by
  have hslash : IsFirm '\\' := by decide
  cases h with
  | plain _ hheld => exact .inl ⟨rfl, hheld⟩
  | lineBreak hheld _ hd =>
    refine .inr ⟨hheld, _, _, rfl, List.forall_mem_cons.mpr ⟨hslash, ?_⟩⟩
    rcases hd with rfl | rfl
    all_goals exact List.forall_mem_cons.mpr ⟨by decide, nofun⟩
  | escape hheld _ _ hfirm => exact .inr ⟨hheld, _, _, rfl, List.forall_mem_cons.mpr ⟨hslash, hfirm⟩⟩

theorem squeezeAfter_firm {c : Char} {firm : List Char} (h : ∀ x ∈ c :: firm, IsFirm x)
    (run code : List Char) :
    squeezeAfter run (c :: firm ++ code) = squeezedRun run ++ (c :: firm ++ squeeze code) := by
  induction firm generalizing c run with
  | nil => exact squeezeAfter_append (h c List.mem_cons_self).blank run [] code
  | cons d firm ih =>
    obtain ⟨hc, h⟩ := List.forall_mem_cons.mp h
    have hrest : squeeze (d :: firm ++ code) = d :: firm ++ squeeze code := ih h []
    have hfirst := squeezeAfter_append hc.blank run [] (d :: firm ++ code)
    rw [hrest] at hfirst
    exact hfirst

theorem closeGapsAfter_firm {c : Char} {firm : List Char} (h : ∀ x ∈ c :: firm, IsFirm x)
    (isOpen : Bool) (held code : List Char) :
    closeGapsAfter isOpen held (c :: firm ++ code) = held ++ (c :: firm ++ closeGaps code) := by
  induction firm generalizing c isOpen held with
  | nil => exact closeGapsAfter_append (h c List.mem_cons_self) isOpen held [] code
  | cons d firm ih =>
    obtain ⟨hc, h⟩ := List.forall_mem_cons.mp h
    have hrest : closeGaps (d :: firm ++ code) = d :: firm ++ closeGaps code := ih h false []
    have hfirst := closeGapsAfter_append hc isOpen held [] (d :: firm ++ code)
    rw [hrest] at hfirst
    exact hfirst

/-- The second pass squeezes the runs of blanks that are held. -/
theorem squeezeAfter_escaped {run : List Char} (hrun : HeldBlanks run) (text : List Char) :
    squeezeAfter run (escaped text) = escaped (squeezeOf isHeld run text) := by
  induction text generalizing run with
  | nil => exact hrun.squeezed.escaped_eq.symm
  | cons c text ih =>
    have hnil : HeldBlanks [] := nofun
    have hstays : escaped (squeezedRun run ++ c :: squeezeOf isHeld [] text) =
        squeezedRun run ++ (escapeChar c ++ squeeze (escaped text)) := by
      rw [escaped_append, hrun.squeezed.escaped_eq, squeeze, ih hnil]
      rfl
    have hcons : escaped (c :: text) = escapeChar c ++ escaped text := rfl
    rw [squeezeOf, hcons]
    obtain ⟨he, hheld⟩ | ⟨hheld, d, more, he, hfirm⟩ := (writtenAs_escapeChar c).firm
    · rw [he] at hstays ⊢
      rw [List.cons_append, List.nil_append, squeezeAfter, hheld]
      split
      · rename_i hblank
        have hc := isHeld_iff.mp (hheld.trans hblank)
        exact ih (List.forall_mem_cons.mpr ⟨hc, hrun⟩)
      · rw [hstays]
        rfl
    · rw [he] at hstays ⊢
      rw [hheld, if_neg Bool.false_ne_true, hstays, squeezeAfter_firm hfirm]

/-- The third pass closes the gaps of blanks that are held. -/
theorem closeGapsAfter_escaped {held : List Char} (hheld : HeldBlanks held) (isOpen : Bool)
    (text : List Char) :
    closeGapsAfter isOpen held (escaped text) = escaped (closeGapsOf isHeld isOpen held text) := by
  induction text generalizing isOpen held with
  | nil => exact hheld.escaped_eq.symm
  | cons c text ih =>
    have hnil : HeldBlanks [] := nofun
    have hcons : escaped (c :: text) = escapeChar c ++ escaped text := rfl
    rw [closeGapsOf, hcons]
    obtain ⟨he, hc⟩ | ⟨hc, d, more, he, hfirm⟩ := (writtenAs_escapeChar c).firm
    · rw [he, List.cons_append, List.nil_append, closeGapsAfter, hc]
      split
      · rename_i hgap
        have hone := isHeld_iff.mp (hc.trans (Bool.and_eq_true_iff.mp hgap).2)
        have hone : HeldBlanks [c] := List.forall_mem_cons.mpr ⟨hone, nofun⟩
        exact ih (List.forall_mem_append.mpr ⟨hheld, hone⟩) true
      · rw [ih hnil, escaped_append]
        congr 1
        · split
          · rfl
          · exact hheld.escaped_eq.symm
        · show _ = escapeChar c ++ _
          rw [he]
          rfl
    · -- what is written firmly is no angle bracket, as those are written as they are
      have hopen : c ≠ '<' := by
        rintro rfl
        cases he
        exact (hfirm '<' List.mem_cons_self).ne_open rfl
      have hclose : c ≠ '>' := by
        rintro rfl
        cases he
        exact (hfirm '>' List.mem_cons_self).ne_close rfl
      have hstays : escaped (held ++ c :: closeGapsOf isHeld false [] text) =
          held ++ (escapeChar c ++ closeGaps (escaped text)) := by
        rw [escaped_append, hheld.escaped_eq, closeGaps, ih hnil]
        rfl
      rw [hc, Bool.and_false, if_neg Bool.false_ne_true, if_neg hopen, beq_false_of_ne hclose, hstays, he,
        closeGapsAfter_firm hfirm]

theorem compacted_escaped (text : List Char) : compacted (escaped text) = escaped (tidied text) := by
  have hnil : HeldBlanks [] := nofun
  have hdrop := dropBreaks_escaped text []
  rw [List.append_nil, dropBreaks, List.append_nil] at hdrop
  rw [compacted, hdrop, squeeze, squeezeAfter_escaped hnil, closeGaps, closeGapsAfter_escaped hnil]
  rfl

theorem compacted_escaped_append (text more : List Char) :
    compacted (escaped text ++ '"' :: more) = escaped (tidied text) ++ '"' :: compacted more := by
  have hdrop := dropBreaks_escaped text []
  rw [List.append_nil, dropBreaks, List.append_nil] at hdrop
  rw [compacted_append isFirm_quote, compacted_escaped]
  rw [dropBreaks_escaped, hdrop, dropBreaks_cons (by decide)]

/-- **Compaction makes of the literal of a text the literal of the tidied text.** -/
theorem compacted_quoted (text : List Char) : compacted (quoted text) = quoted (tidied text) := by
  show compacted ([] ++ '"' :: (escaped text ++ ['"'])) = '"' :: (escaped (tidied text) ++ ['"'])
  rw [compacted_append isFirm_quote (dropBreaks_cons (by decide) _), compacted_escaped_append]
  rfl

theorem standsAlone_quoted (text : List Char) : StandsAlone (quoted text) := by
  intro before after front hf back
  have hcode : front ++ quoted text ++ back = front ++ '"' :: (escaped text ++ '"' :: back) := by
    simp only [quoted, escaped, List.append_assoc, List.cons_append, List.nil_append]
  rw [hcode, hf.compacted_append isFirm_quote (by decide), compacted_escaped_append, compacted_quoted]
  simp only [quoted, escaped, List.append_assoc, List.cons_append, List.nil_append]

/-! ## 6. Tidy texts -/

/-- A text that comes out of compaction as it was. -/
structure Tidy (text : List Char) : Prop where
  /-- There are no line breaks. -/
  lines : ∀ c ∈ text, isLineBreak c = false
  /-- No two blanks stand side by side. -/
  pairs : NoPairs isHeld text
  /-- No blank stands between `>` and `<`. -/
  gaps : NoGaps isHeld text

theorem tidy_tidied (text : List Char) : Tidy (tidied text) := by
  have hpairs : NoPairs isHeld (squeezeOf isHeld [] (text.filter fun c => !isLineBreak c)) :=
    noPairs_squeezeOf [] _
  have hgaps : NoGaps isHeld (gapFront false ++ tidied text) :=
    noGaps_closeGapsOf (fun h => absurd rfl h) (List.forall_mem_nil _) hpairs (by decide)
  refine ⟨fun c hc => ?_, noPairs_closeGapsOf (fun h => absurd rfl h) hpairs (by decide), hgaps⟩
  obtain hc | hc := mem_closeGapsOf hc
  · cases hc
  obtain hc | hc | rfl := mem_squeezeOf hc
  · cases hc
  · have := (List.mem_filter.mp hc).2
    rwa [Bool.not_eq_true'] at this
  · rfl

/-- **A text comes out as it was** exactly if it is tidy. -/
theorem tidied_eq_self_iff {text : List Char} : tidied text = text ↔ Tidy text := by
  constructor
  · intro h
    rw [← h]
    exact tidy_tidied text
  · intro ⟨hlines, hpairs, hgaps⟩
    have hfilter : (text.filter fun c => !isLineBreak c) = text :=
      List.filter_eq_self.mpr fun c hc => by rw [hlines c hc]; rfl
    have hsqueeze : squeezeOf isHeld [] text = text := squeezeOf_eq_self (List.forall_mem_nil _) hpairs
    have hclose : closeGapsOf isHeld false [] text = text :=
      closeGapsOf_eq_self (fun h => absurd rfl h) (List.forall_mem_nil _) hpairs hgaps
    rw [tidied, hfilter, hsqueeze, hclose]

/-- The tidied text, as a text. -/
def tidy (text : String) : String :=
  String.ofList (tidied text.toList)

theorem compact_quote (text : String) : compact (quote text) = quote (tidy text) := by
  unfold compact quote tidy
  rw [String.toList_ofList, String.toList_ofList]
  exact congrArg String.ofList (compacted_quoted text.toList)

theorem tidy_eq_self_iff {text : String} : tidy text = text ↔ Tidy text.toList := by
  rw [tidy, ← tidied_eq_self_iff, ← String.toList_inj, String.toList_ofList]

end Stache.Text
