import Stache.Proofs.Text.Marks
import Stache.Template.Piece

/-!
# Literal text and tags as they are written

Where a tag opens, where it ends and what is read from it, told of the text alone.

* `OpensAt`, `Free` -- a tag opens at two braces that do not overlap with a `\{{`;
* `literal_spec`, `literal_eq` -- literal text ends where the next tag opens;
* `WrittenTag` -- a tag as it stands in the text, from its opening braces to the end of its closing mark;
* `WrittenTag.read?_behind`, `exists_written` -- **a written tag is read, and what is read is a written tag**;
* `WrittenTag.eq_of_behind` -- where a written tag ends is told by its text.
-/

namespace Stache

/-! ## 1. Literal text -/

/-- `{{` -/
def openingMark : List Char := ['\x7b', '\x7b']

/-- `\{{` -/
def escapedMark : List Char := ['\\', '\x7b', '\x7b']

/-- **Unescaped braces**: at this place of the text stands `{{`, and it does not overlap with a `\{{`. -/
def OpensAt (text : List Char) (place : Nat) : Prop :=
  openingMark <+: text.drop place ∧
    ∀ k, escapedMark <+: text.drop k → place + 2 ≤ k ∨ k + 3 ≤ place

/-- No unescaped braces begin in the text, if the other text stands behind it. -/
def Free (text behind : List Char) : Prop :=
  ∀ k < text.length, ¬ OpensAt (text ++ behind) k

theorem opensAt_succ {c : Char} {text : List Char} {k : Nat} :
    OpensAt (c :: text) (k + 1) ↔ OpensAt text k ∧ (escapedMark <+: c :: text → 2 ≤ k) := by
  unfold OpensAt
  constructor
  · rintro ⟨h, hescaped⟩
    refine ⟨⟨h, ?_⟩, ?_⟩
    · intro j hj
      have := hescaped (j + 1) hj
      omega
    · intro hj
      have := hescaped 0 hj
      omega
  · rintro ⟨⟨h, hescaped⟩, hfront⟩
    refine ⟨h, ?_⟩
    intro j hj
    cases j with
    | zero =>
      have := hfront hj
      omega
    | succ j =>
      have := hescaped j hj
      omega

/-- Behind a character that begins no `\{{` the places are counted anew. -/
theorem opensAt_cons {c : Char} {text : List Char} {k : Nat} (h : ¬ escapedMark <+: c :: text) :
    OpensAt (c :: text) (k + 1) ↔ OpensAt text k := by
  simp [opensAt_succ, h]

theorem opensAt_escaped {text : List Char} {k : Nat} :
    OpensAt (escapedMark ++ text) (k + 3) ↔ OpensAt text k := by
  simp [opensAt_succ, escapedMark]

/-- **Literal text ends where a tag opens**, or at the end. -/
theorem literal_spec (text : List Char) :
    Free (literal text).1 (literal text).2 ∧
      ((literal text).2 ≠ [] → OpensAt ((literal text).1 ++ (literal text).2) (literal text).1.length) := by
  unfold Free
  rw [append_literal]
  fun_induction literal text with
  | case1 => simp
  | case2 text before rest e ih =>
    rw [e] at ih
    refine ⟨?_, ?_⟩
    · intro k hk h
      by_cases hfront : k < 3
      · have := h.2 0 (List.prefix_append escapedMark text)
        omega
      · obtain ⟨j, rfl⟩ : ∃ j, k = j + 3 := ⟨k - 3, by omega⟩
        exact ih.1 j (by simpa using hk) (opensAt_escaped.mp h)
    · intro hr
      exact opensAt_escaped.mpr (ih.2 hr)
  | case3 text =>
    refine ⟨by simp, ?_⟩
    intro _
    refine ⟨List.prefix_append openingMark text, ?_⟩
    intro k hk
    cases k with
    | zero => simp [escapedMark] at hk
    | succ k =>
      cases k with
      | zero => simp [escapedMark] at hk
      | succ k => simp
  | case4 c text hescaped hopen before rest e ih =>
    have hfront : ¬ escapedMark <+: c :: text := by
      rintro ⟨more, he⟩
      simp only [escapedMark, List.cons_append, List.nil_append, List.cons.injEq] at he
      exact hescaped more he.1.symm he.2.symm
    rw [e] at ih
    refine ⟨?_, ?_⟩
    · intro k hk h
      cases k with
      | zero =>
        obtain ⟨more, he⟩ := h.1
        simp only [openingMark, List.drop_zero, List.cons_append, List.nil_append,
          List.cons.injEq] at he
        exact hopen more he.1.symm he.2.symm
      | succ k => exact ih.1 k (by simpa using hk) ((opensAt_cons hfront).mp h)
    · intro hr
      exact (opensAt_cons hfront).mpr (ih.2 hr)

/-- Where literal text ends is settled by that. -/
theorem literal_eq {before rest : List Char} (hfree : Free before rest)
    (hopen : rest ≠ [] → OpensAt (before ++ rest) before.length) :
    literal (before ++ rest) = (before, rest) := by
  obtain ⟨hfree', hopen'⟩ := literal_spec (before ++ rest)
  have happend := append_literal (before ++ rest)
  have htotal := congrArg List.length happend
  simp only [List.length_append] at htotal
  unfold Free at hfree'
  rw [happend] at hfree' hopen'
  have hlength : (literal (before ++ rest)).1.length = before.length := by
    by_contra hne
    by_cases hlt : (literal (before ++ rest)).1.length < before.length
    · refine hfree _ hlt (hopen' fun e => ?_)
      have := congrArg List.length e
      simp only [List.length_nil] at this
      omega
    · refine hfree' before.length (by omega) (hopen fun e => ?_)
      have := congrArg List.length e
      simp only [List.length_nil] at this
      omega
  obtain ⟨hfirst, hsecond⟩ := List.append_inj happend hlength
  exact Prod.ext hfirst hsecond

/-- Two braces in place of each `\{{`. -/
theorem unescape_eq (raw : List Char) : unescape raw = Text.replaceAll escapedMark openingMark raw := by
  unfold Text.replaceAll
  fun_induction unescape raw with
  | case1 => rfl
  | case2 text ih =>
    rw [ih]
    rfl
  | case3 c text hescaped ih =>
    have hnone : Text.afterMark? escapedMark (c :: text) = none := by
      rw [Text.afterMark?_eq_none]
      rintro ⟨more, he⟩
      simp only [escapedMark, List.cons_append, List.nil_append, List.cons.injEq] at he
      exact hescaped more he.1.symm he.2.symm
    rw [Text.replaceFrom, hnone, ih]

/-! ## 2. Tags -/

/-- What may stand behind the opening braces of a tag, with the kind of the tag and the way it is closed. -/
def sigils : List (List Char × TagKind × Closing) :=
  [(['\x7b'], .unescaped, .triple), (['&'], .unescaped, .double), (['#', '>'], .partialBlock, .double),
    (['#'], .block, .double), (['^'], .inverse, .double), (['/'], .close, .double),
    (['>'], .partialTemplate, .double), (['!', '-', '-'], .comment, .dashes),
    (['!'], .comment, .double), ([], .escaped, .double)]

/-- `}~}}` -/
def strippingMark : List Char := ['\x7d', '~', '\x7d', '\x7d']

/-- The marks that close a tag. -/
def Closing.marks : Closing → List (List Char)
  | .double => [['\x7d', '\x7d']]
  | .triple => [['\x7d', '\x7d', '\x7d'], strippingMark]
  | .dashes => [['-', '-', '\x7d', '\x7d']]

/-- **A tag as it stands in a text**: opening braces, maybe a `~`, the longest sigil that fits, the inside, and
    the first mark that closes such a tag. -/
@[ext]
structure WrittenTag where
  /-- A `~` stands behind the opening braces. -/
  strips : Bool
  /-- The sigil. -/
  sigil : List Char
  /-- The kind that the sigil tells. -/
  kind : TagKind
  /-- How such a tag is closed. -/
  closing : Closing
  /-- What stands between the sigil and the closing mark. -/
  inside : List Char
  /-- The closing mark. -/
  mark : List Char
  unmarked : strips = false → ¬ ['~'] <+: sigil ++ (inside ++ mark)
  known : (sigil, kind, closing) ∈ sigils
  longest : ∀ other ∈ sigils, other.1 <+: sigil ++ (inside ++ mark) → other.1.length ≤ sigil.length
  closes : mark ∈ closing.marks
  first : ∀ k < inside.length, ∀ other ∈ closing.marks, ¬ other <+: (inside ++ mark).drop k

namespace WrittenTag

/-- What stands behind the opening braces. -/
def behind (tag : WrittenTag) : List Char :=
  (if tag.strips then ['~'] else []) ++ (tag.sigil ++ (tag.inside ++ tag.mark))

/-- The full text of the tag, from its opening braces to just past its closing mark. -/
def text (tag : WrittenTag) : List Char :=
  openingMark ++ tag.behind

/-- Blanks apart, a `~` stands right before the closing braces, or before the last two of three. -/
def stripsAfter (tag : WrittenTag) : Bool :=
  tag.mark == strippingMark || (Text.trimEnd tag.inside).getLast? == some '~'

/-- The inside up to a `~` that closes the tag. -/
def held (tag : WrittenTag) : List Char :=
  if (Text.trimEnd tag.inside).getLast? = some '~' then (Text.trimEnd tag.inside).dropLast
  else tag.inside

/-- The tag with what it tells apart from its text. -/
def raw (tag : WrittenTag) : RawTag :=
  ⟨tag.kind, tag.strips, tag.stripsAfter, tag.held⟩

end WrittenTag

/-! ## 3. Reading a tag -/

theorem not_isPrefix {mark text : List Char} (h : ∀ more, text = mark ++ more → False) : ¬ mark <+: text :=
  fun ⟨more, e⟩ => h more e.symm

/-- **The longest sigil that fits is read.** -/
theorem TagKind.ofSigil_spec (text : List Char) : ∃ sigil, text = sigil ++ (ofSigil text).2.2 ∧
    (sigil, (ofSigil text).1, (ofSigil text).2.1) ∈ sigils ∧
      ∀ other ∈ sigils, other.1 <+: text → other.1.length ≤ sigil.length := by
  fun_cases ofSigil text with
  | case1 text => exact ⟨['\x7b'], rfl, by simp [sigils], by simp [sigils]⟩
  | case2 text => exact ⟨['&'], rfl, by simp [sigils], by simp [sigils]⟩
  | case3 text => exact ⟨['#', '>'], rfl, by simp [sigils], by simp [sigils]⟩
  | case4 text h => exact ⟨['#'], rfl, by simp [sigils], by simpa [sigils] using not_isPrefix h⟩
  | case5 text => exact ⟨['^'], rfl, by simp [sigils], by simp [sigils]⟩
  | case6 text => exact ⟨['/'], rfl, by simp [sigils], by simp [sigils]⟩
  | case7 text => exact ⟨['>'], rfl, by simp [sigils], by simp [sigils]⟩
  | case8 text => exact ⟨['!', '-', '-'], rfl, by simp [sigils], by simp [sigils]⟩
  | case9 text h => exact ⟨['!'], rfl, by simp [sigils], by simpa [sigils] using not_isPrefix h⟩
  | case10 text h₁ h₂ h₃ h₄ h₅ h₆ h₇ h₈ h₉ =>
    exact ⟨[], rfl, by simp [sigils], by
      simpa [sigils] using ⟨not_isPrefix h₁, not_isPrefix h₂, not_isPrefix h₃, not_isPrefix h₄,
        not_isPrefix h₅, not_isPrefix h₆, not_isPrefix h₇, not_isPrefix h₈, not_isPrefix h₉⟩⟩

theorem frontTilde_eq {text : List Char} (h : ¬ ['~'] <+: text) : frontTilde text = (false, text) := by
  fun_cases frontTilde text with
  | case1 rest => exact absurd (List.prefix_append ['~'] rest) h
  | case2 => rfl

theorem frontTilde_spec (text : List Char) :
    text = (if (frontTilde text).1 then ['~'] else []) ++ (frontTilde text).2 ∧
      ((frontTilde text).1 = false → ¬ ['~'] <+: text) := by
  fun_cases frontTilde text with
  | case1 rest => exact ⟨rfl, by simp⟩
  | case2 text h => exact ⟨rfl, fun _ => not_isPrefix h⟩

theorem cutTriple?_spec {text inside rest : List Char} {strips : Bool}
    (h : cutTriple? text = some (inside, strips, rest)) : ∃ mark ∈ Closing.triple.marks,
      text = inside ++ (mark ++ rest) ∧ strips = (mark == strippingMark) ∧
        ∀ k < inside.length, ∀ other ∈ Closing.triple.marks, ¬ other <+: text.drop k := by
  fun_induction cutTriple? text generalizing inside with
  | case1 text =>
    simp only [Option.some.injEq, Prod.mk.injEq] at h
    obtain ⟨rfl, rfl, rfl⟩ := h
    exact ⟨_, .head _, rfl, rfl, by simp⟩
  | case2 text =>
    simp only [Option.some.injEq, Prod.mk.injEq] at h
    obtain ⟨rfl, rfl, rfl⟩ := h
    exact ⟨_, .tail _ (.head _), rfl, rfl, by simp⟩
  | case3 c text hthree hstripping ih =>
    simp only [Option.map_eq_some_iff, Prod.mk.injEq, Prod.exists] at h
    obtain ⟨inner, s, r, hcut, rfl, rfl, rfl⟩ := h
    obtain ⟨mark, hm, htext, hstrips, hfirst⟩ := ih hcut
    refine ⟨mark, hm, by rw [htext]; rfl, hstrips, ?_⟩
    intro k hk other hother
    cases k with
    | zero =>
      simp only [Closing.marks, strippingMark, List.mem_cons, List.not_mem_nil, or_false] at hother
      rintro ⟨more, e⟩
      obtain rfl | rfl := hother
      · simp only [List.cons_append, List.nil_append, List.drop_zero, List.cons.injEq] at e
        exact hthree more e.1.symm e.2.symm
      · simp only [List.cons_append, List.nil_append, List.drop_zero, List.cons.injEq] at e
        exact hstripping more e.1.symm e.2.symm
    | succ k => exact hfirst k (by simpa using hk) other hother
  | case4 => cases h

theorem cutTriple?_append {inside mark rest : List Char} (hm : mark ∈ Closing.triple.marks)
    (hfirst : ∀ k < inside.length, ∀ other ∈ Closing.triple.marks,
      ¬ other <+: (inside ++ (mark ++ rest)).drop k) :
    cutTriple? (inside ++ (mark ++ rest)) = some (inside, mark == strippingMark, rest) := by
  induction inside with
  | nil =>
    simp only [Closing.marks, List.mem_cons, List.not_mem_nil, or_false] at hm
    obtain rfl | rfl := hm
    · rfl
    · rfl
  | cons c inside ih =>
    have hfront := hfirst 0 (by simp)
    have hbehind := ih fun k hk => by simpa using hfirst (k + 1) (by simpa using hk)
    rw [List.cons_append, cutTriple?, hbehind]
    · rfl
    · intro more hc e
      exact hfront _ (.head _) ⟨more, by simp [hc, e]⟩
    · intro more hc e
      exact hfront _ (.tail _ (.head _)) ⟨more, by simp [hc, e, strippingMark]⟩

namespace Closing

theorem length_marks (closing : Closing) : ∀ mark ∈ closing.marks, 2 ≤ mark.length ∧
    ∀ other ∈ closing.marks, other.length ≤ mark.length + 1 := by
  cases closing <;> decide

/-- **The first mark that closes is found.** -/
theorem cut?_spec {closing : Closing} {text inside rest : List Char} {strips : Bool}
    (h : closing.cut? text = some (inside, strips, rest)) : ∃ mark ∈ closing.marks,
      text = inside ++ (mark ++ rest) ∧ strips = (mark == strippingMark) ∧
        ∀ k < inside.length, ∀ other ∈ closing.marks, ¬ other <+: text.drop k := by
  cases closing with
  | triple => exact cutTriple?_spec h
  | double =>
    simp only [cut?, Option.map_eq_some_iff, Prod.mk.injEq, Prod.exists] at h
    obtain ⟨_, _, hcut, rfl, rfl, rfl⟩ := h
    obtain ⟨htext, hfirst⟩ := (Text.cut?_eq_some (List.cons_ne_nil _ _)).mp hcut
    exact ⟨_, .head _, htext, rfl, by simpa [marks] using hfirst⟩
  | dashes =>
    simp only [cut?, Option.map_eq_some_iff, Prod.mk.injEq, Prod.exists] at h
    obtain ⟨_, _, hcut, rfl, rfl, rfl⟩ := h
    obtain ⟨htext, hfirst⟩ := (Text.cut?_eq_some (List.cons_ne_nil _ _)).mp hcut
    exact ⟨_, .head _, htext, rfl, by simpa [marks] using hfirst⟩

theorem cut?_append {closing : Closing} {inside mark rest : List Char} (hm : mark ∈ closing.marks)
    (hfirst : ∀ k < inside.length, ∀ other ∈ closing.marks,
      ¬ other <+: (inside ++ (mark ++ rest)).drop k) :
    closing.cut? (inside ++ (mark ++ rest)) = some (inside, mark == strippingMark, rest) := by
  cases closing with
  | triple => exact cutTriple?_append hm hfirst
  | double =>
    obtain rfl := List.mem_singleton.mp hm
    rw [cut?, (Text.cut?_eq_some (List.cons_ne_nil _ _)).mpr ⟨rfl, fun k hk => hfirst k hk _ hm⟩]
    rfl
  | dashes =>
    obtain rfl := List.mem_singleton.mp hm
    rw [cut?, (Text.cut?_eq_some (List.cons_ne_nil _ _)).mpr ⟨rfl, fun k hk => hfirst k hk _ hm⟩]
    rfl

end Closing

theorem Text.beforeMark?_singleton (c : Char) (text : List Char) :
    Text.beforeMark? [c] text = if text.getLast? = some c then some text.dropLast else none := by
  obtain rfl | ⟨front, d, rfl⟩ := List.eq_nil_or_concat text
  · rfl
  · by_cases h : d = c
    · simp [beforeMark?, afterMark?, h]
    · have h' : c ≠ d := fun e => h e.symm
      simp [beforeMark?, afterMark?, h, h']

namespace WrittenTag

variable {tag other : WrittenTag} {rest rest' : List Char}

theorem splitTilde_inside (tag : WrittenTag) : splitTilde tag.inside =
    (tag.held, (Text.trimEnd tag.inside).getLast? == some '~') := by
  rw [splitTilde, Text.beforeMark?_singleton, held]
  by_cases h : (Text.trimEnd tag.inside).getLast? = some '~' <;> simp [h]

theorem frontTilde_behind (tag : WrittenTag) (rest : List Char) : frontTilde (tag.behind ++ rest) =
    (tag.strips, tag.sigil ++ (tag.inside ++ (tag.mark ++ rest))) := by
  have hmark := (tag.closing.length_marks tag.mark tag.closes).1
  unfold behind
  cases h : tag.strips with
  | true => simp [frontTilde]
  | false =>
    have hfront : ¬ ['~'] <+: tag.sigil ++ (tag.inside ++ (tag.mark ++ rest)) := by
      intro hp
      refine tag.unmarked h (List.prefix_of_prefix_length_le hp ⟨rest, ?_⟩ ?_)
      · simp
      · simp only [List.length_append, List.length_singleton]
        omega
    simpa using frontTilde_eq hfront

/-- The table tells one kind and one way to close for each sigil, and only `!--` is longer than two. -/
theorem sigils_unique : ∀ entry ∈ sigils, ∀ other ∈ sigils, entry.1 = other.1 → entry = other := by
  decide

theorem length_sigil : ∀ entry ∈ sigils, entry.1.length ≤ 2 ∨ entry.1 = ['!', '-', '-'] := by
  decide

/-- The sigil of a tag is read, whatever stands behind the tag. -/
theorem ofSigil_eq (tag : WrittenTag) (rest : List Char) :
    TagKind.ofSigil (tag.sigil ++ (tag.inside ++ (tag.mark ++ rest))) =
      (tag.kind, tag.closing, tag.inside ++ (tag.mark ++ rest)) := by
  have hmark := (tag.closing.length_marks tag.mark tag.closes).1
  obtain ⟨sigil, htext, hmem, hlongest⟩ :=
    TagKind.ofSigil_spec (tag.sigil ++ (tag.inside ++ (tag.mark ++ rest)))
  generalize TagKind.ofSigil (tag.sigil ++ (tag.inside ++ (tag.mark ++ rest))) = read at *
  obtain ⟨kind, closing, behind⟩ := read
  have hfits : tag.sigil.length ≤ sigil.length := hlongest _ tag.known (List.prefix_append _ _)
  have hwhole : tag.sigil ++ (tag.inside ++ tag.mark) <+:
      tag.sigil ++ (tag.inside ++ (tag.mark ++ rest)) := ⟨rest, by simp⟩
  -- a sigil that goes beyond the shortest tag begins like a shorter one
  have hlength : sigil.length ≤ tag.sigil.length := by
    obtain hshort | hlong := length_sigil _ hmem
    · refine tag.longest _ hmem (List.prefix_of_prefix_length_le ⟨behind, htext.symm⟩ hwhole ?_)
      simp only [List.length_append]
      simp only at hshort
      omega
    · have hbang : ['!'] <+: tag.sigil ++ (tag.inside ++ (tag.mark ++ rest)) :=
        ⟨'-' :: '-' :: behind, by rw [htext, show sigil = ['!', '-', '-'] from hlong]; rfl⟩
      have hone := tag.longest (['!'], .comment, .double) (by decide)
        (List.prefix_of_prefix_length_le hbang hwhole (by
          simp only [List.length_append, List.length_singleton]; omega))
      simp only [List.length_singleton] at hone
      refine tag.longest _ hmem (List.prefix_of_prefix_length_le ⟨behind, htext.symm⟩ hwhole ?_)
      rw [show sigil = ['!', '-', '-'] from hlong]
      simp only [List.length_append, List.length_cons, List.length_nil]
      omega
  obtain ⟨hsigil, hbehind⟩ := List.append_inj htext (Nat.le_antisymm hfits hlength)
  have hentry := sigils_unique _ tag.known _ hmem hsigil
  simp only [Prod.mk.injEq] at hentry
  rw [hentry.2.1, hentry.2.2, hbehind]

/-- The tag is closed by its own mark, whatever stands behind it. -/
theorem cut?_eq (tag : WrittenTag) (rest : List Char) :
    tag.closing.cut? (tag.inside ++ (tag.mark ++ rest)) =
      some (tag.inside, tag.mark == strippingMark, rest) := by
  refine Closing.cut?_append tag.closes ?_
  intro k hk mark hm hp
  have hmarks := (tag.closing.length_marks tag.mark tag.closes).2 mark hm
  have hwhole : (tag.inside ++ tag.mark).drop k <+: (tag.inside ++ (tag.mark ++ rest)).drop k := by
    rw [← List.append_assoc]
    exact (List.prefix_append _ rest).drop k
  refine tag.first k hk mark hm (List.prefix_of_prefix_length_le hp hwhole ?_)
  simp only [List.length_drop, List.length_append]
  omega

/-- **A written tag is read**, whatever stands behind it. -/
theorem read?_behind (tag : WrittenTag) (rest : List Char) :
    RawTag.read? (tag.behind ++ rest) = some (tag.raw, rest) := by
  unfold RawTag.read?
  rw [tag.frontTilde_behind]
  dsimp only
  rw [tag.ofSigil_eq]
  dsimp only
  rw [tag.cut?_eq, Option.map_some, tag.splitTilde_inside]
  rfl

/-- **Where a written tag ends is told by its text**, and so is all that it holds. -/
theorem eq_of_behind (h : tag.behind ++ rest = other.behind ++ rest') : tag = other ∧ rest = rest' := by
  have hfront := (tag.frontTilde_behind rest).symm.trans
    ((congrArg frontTilde h).trans (other.frontTilde_behind rest'))
  obtain ⟨hstrips, hbody⟩ := Prod.mk.inj hfront
  have hsigil := (tag.ofSigil_eq rest).symm.trans
    ((congrArg TagKind.ofSigil hbody).trans (other.ofSigil_eq rest'))
  simp only [Prod.mk.injEq] at hsigil
  obtain ⟨hkind, hclosing, hinside⟩ := hsigil
  have hcut := tag.cut?_eq rest
  rw [hclosing, hinside, other.cut?_eq rest'] at hcut
  simp only [Option.some.injEq, Prod.mk.injEq] at hcut
  obtain ⟨hinner, -, hrest⟩ := hcut
  rw [hinner, hrest] at hinside
  have hmark := List.append_cancel_right (List.append_cancel_left hinside)
  rw [hinner, hmark, hrest] at hbody
  have hsame := List.append_cancel_right hbody
  exact ⟨WrittenTag.ext hstrips hsame hkind hclosing hinner.symm hmark, hrest.symm⟩

end WrittenTag

/-- **What is read is a written tag.** -/
theorem exists_written {text rest : List Char} {raw : RawTag} (h : RawTag.read? text = some (raw, rest)) :
    ∃ tag : WrittenTag, text = tag.behind ++ rest ∧ tag.raw = raw := by
  obtain ⟨htilde, hunmarked⟩ := frontTilde_spec text
  unfold RawTag.read? at h
  generalize frontTilde text = front at *
  obtain ⟨strips, body⟩ := front
  obtain ⟨sigil, hsigil, hknown, hlongest⟩ := TagKind.ofSigil_spec body
  dsimp only at h
  generalize TagKind.ofSigil body = read at *
  obtain ⟨kind, closing, inner⟩ := read
  simp only [Option.map_eq_some_iff, Prod.exists, Prod.mk.injEq] at h
  obtain ⟨inside, closerStrips, after, hcut, hraw, rfl⟩ := h
  obtain ⟨mark, hm, hinner, rfl, hfirst⟩ := Closing.cut?_spec hcut
  simp only at htilde hunmarked hsigil
  have hwhole : sigil ++ (inside ++ mark) <+: body := ⟨after, by rw [hsigil, hinner]; simp⟩
  let tag : WrittenTag := ⟨strips, sigil, kind, closing, inside, mark,
    fun hs hp => hunmarked hs (hp.trans (by simpa [htilde, hs] using hwhole)), hknown,
    fun other ho hp => hlongest other ho (hp.trans hwhole), hm,
    fun k hk other ho hp => hfirst k hk other ho (hp.trans (by
      rw [hinner, ← List.append_assoc]
      exact (List.prefix_append _ after).drop k))⟩
  refine ⟨tag, ?_, ?_⟩
  · rw [htilde, hsigil, hinner]
    simp [tag, WrittenTag.behind]
  · rw [← hraw, show inside = tag.inside from rfl, tag.splitTilde_inside]
    rfl

end Stache
