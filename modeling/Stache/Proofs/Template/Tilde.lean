import Mathlib.Data.List.Forall2
import Stache.Proofs.Template.Places

/-!
# Tags that strip blanks

A `~` in a tag drops the blanks beside the tag, and that is all that it does.

* `WrittenTag.tilded` -- a tag with a `~` behind its opening braces, before its closing braces, or both;
* `WrittenTag.exists_tilded` -- such a text is a tag again, of the same kind and with the same inside;
* `Layout.replaced` -- a tag in a text can be put in the place of another one that holds the same;
* `scan_tilded` -- **with a `~` added to one of its tags a source text is scanned as before**, but for the
  blanks beside the tag.
-/

namespace Stache

/-! ## 1. Segments, trimmed and moved -/

theorem Text.trimEnd_blank {c : Char} (h : isBlank c = true) (text : List Char) :
    trimEnd (text ++ [c]) = trimEnd text :=
  List.rdropWhile_concat_pos _ _ c h

theorem Text.trimEnd_concat {c : Char} (h : isBlank c = false) (text : List Char) :
    trimEnd (text ++ [c]) = text ++ [c] :=
  List.rdropWhile_concat_neg _ _ c (by rw [h]; exact Bool.false_ne_true)

/-- It is no matter which end of a text is trimmed first. -/
theorem Text.trimStart_trimEnd (text : List Char) : trimStart (trimEnd text) = trimEnd (trimStart text) := by
  induction text using List.reverseRecOn with
  | nil => rfl
  | append_singleton text c ih =>
    have hstart : trimStart (text ++ [c]) =
        if (trimStart text).isEmpty then trimStart [c] else trimStart text ++ [c] := List.dropWhile_append
    cases hblank : isBlank c with
    | true =>
      rw [trimEnd_blank hblank, ih, hstart]
      split
      · rename_i hempty
        rw [List.isEmpty_iff.mp hempty, trimStart, List.dropWhile_cons_of_pos hblank]
        rfl
      · rw [trimEnd_blank hblank]
    | false =>
      rw [trimEnd_concat hblank, hstart]
      split
      · rw [trimStart, List.dropWhile_cons_of_neg (by rw [hblank]; exact Bool.false_ne_true)]
        exact (trimEnd_concat hblank []).symm
      · rw [trimEnd_concat hblank]

/-- The segments without the blanks at their end, if they end with content. -/
def trimLast : List Segment → List Segment
  | [] => []
  | [.content text] => [.content (String.ofList (Text.trimEnd text.toList))]
  | segment :: segments => segment :: trimLast segments

/-- The segments without the blanks at their front, if they begin with content. -/
def trimFirst : List Segment → List Segment
  | .content text :: segments => .content (String.ofList (Text.trimStart text.toList)) :: segments
  | segments => segments

theorem trimLast_behind (segments : List Segment) (read : Tag) (more : List Segment) :
    trimLast (segments ++ .tag read :: more) = segments ++ .tag read :: trimLast more := by
  induction segments with
  | nil => rfl
  | cons segment segments ih =>
    rw [List.cons_append, List.cons_append, ← ih]
    cases segment with
    | tag other => rfl
    | content text =>
      cases segments with
      | nil => rfl
      | cons next segments => rfl

/-- What a literal text shows before a tag that strips. -/
theorem trimLast_shownText (strip : Bool) (literal : List Char) :
    trimLast (shownText strip false literal) = shownText strip true literal := by
  by_cases h : literal = []
  · rw [shownText, shownText, if_pos h, if_pos h]
    rfl
  · rw [shownText, shownText, if_neg h, if_neg h]
    simp [trimLast]

/-- What a literal text shows behind a tag that strips. -/
theorem trimFirst_shownText (strip : Bool) (literal : List Char) :
    trimFirst (shownText false strip literal) = shownText true strip literal := by
  by_cases h : literal = []
  · rw [shownText, shownText, if_pos h, if_pos h]
    rfl
  · rw [shownText, shownText, if_neg h, if_neg h]
    cases strip <;> simp [trimFirst, Text.trimStart_trimEnd]

theorem trimFirst_behind (strip : Bool) (literal : List Char) (read : Tag) (more : List Segment) :
    trimFirst (shownText false strip literal ++ .tag read :: more) =
      shownText true strip literal ++ .tag read :: more := by
  rw [← trimFirst_shownText]
  by_cases h : literal = []
  · rw [shownText, if_pos h]
    rfl
  · rw [shownText, if_neg h]
    rfl

/-- The same segment, maybe in another column of its line. -/
inductive Segment.Moved : Segment → Segment → Prop where
  | content (text : String) : Moved (.content text) (.content text)
  | tag (kind : TagKind) (tokens : List Token) {p q : Position} (line : p.line = q.line) :
    Moved (.tag ⟨kind, tokens, p⟩) (.tag ⟨kind, tokens, q⟩)

theorem Segment.Moved.refl (segment : Segment) : segment.Moved segment := by
  cases segment with
  | content text => exact .content text
  | tag read => exact .tag read.kind read.tokens rfl

/-- The same segments, maybe in other columns. -/
def Moved (segments others : List Segment) : Prop :=
  List.Forall₂ Segment.Moved segments others

theorem Moved.refl (segments : List Segment) : Moved segments segments :=
  List.forall₂_same.mpr fun segment _ => .refl segment

theorem Moved.append {a b c d : List Segment} (h : Moved a b) (h' : Moved c d) : Moved (a ++ c) (b ++ d) :=
  List.rel_append h h'

/-- Trimming is no matter. -/
theorem Moved.trimFirst {segments others : List Segment} (h : Moved segments others) :
    Moved (trimFirst segments) (Stache.trimFirst others) := by
  cases h with
  | nil => exact .nil
  | cons first rest =>
    cases first with
    | content text => exact .cons (.content _) rest
    | tag kind tokens line => exact .cons (.tag kind tokens line) rest

/-! ## 2. What is shown for a layout -/

namespace Layout

variable {strip : Bool} {p q : Position} {layout : Layout} {segments : List Segment}

/-- A layout shows the same segments from another column on. -/
theorem Shows.moved (h : layout.Shows strip p segments) (hline : q.line = p.line) :
    ∃ others, layout.Shows strip q others ∧ Moved others segments := by
  induction h generalizing q with
  | last strip p literal => exact ⟨_, .last strip q literal, .refl _⟩
  | @turn strip p literal tag tokens behind segments holds _ ih =>
    have hafter (text : List Char) : (q.after text).line = (p.after text).line := by
      rw [Position.line_after, Position.line_after, hline]
    obtain ⟨others, hothers, hmoved⟩ := ih (hafter _)
    exact ⟨_, .turn strip q literal holds hothers,
      (Moved.refl _).append (.cons (.tag _ _ (hafter _)) hmoved)⟩

/-- Behind a tag that strips, the blanks at the front are not shown. -/
theorem Shows.stripped (h : layout.Shows false p segments) : layout.Shows true p (trimFirst segments) := by
  cases h with
  | last _ _ literal =>
    rw [trimFirst_shownText]
    exact .last true p literal
  | turn _ _ literal holds others =>
    rw [trimFirst_behind]
    exact .turn true p literal holds others

/-- A tag among the segments of a turn is the tag of the turn, or one behind it. -/
theorem eq_or_behind {stripEnd : Bool} {literal : List Char} {first read : Tag}
    {segments before after : List Segment}
    (h : before ++ .tag read :: after = shownText strip stripEnd literal ++ .tag first :: segments) :
    (before = shownText strip stripEnd literal ∧ read = first ∧ after = segments) ∨
      ∃ more, before = shownText strip stripEnd literal ++ .tag first :: more ∧
        segments = more ++ .tag read :: after := by
  have front {more : List Segment} (h : more ++ .tag read :: after = .tag first :: segments) :
      (more = [] ∧ read = first ∧ after = segments) ∨
        ∃ rest, more = .tag first :: rest ∧ segments = rest ++ .tag read :: after := by
    cases more with
    | nil =>
      cases h
      exact .inl ⟨rfl, rfl, rfl⟩
    | cons segment more =>
      cases h
      exact .inr ⟨more, rfl, rfl⟩
  by_cases hempty : literal = []
  · rw [shownText, if_pos hempty] at h ⊢
    exact front h
  · rw [shownText, if_neg hempty] at h ⊢
    dsimp only at h ⊢
    cases before with
    | nil => cases h
    | cons segment before =>
      obtain ⟨rfl, hbehind⟩ := List.cons.inj h
      rcases front hbehind with ⟨rfl, hread, hafter⟩ | ⟨rest, rfl, hrest⟩
      · exact .inl ⟨rfl, hread, hafter⟩
      · exact .inr ⟨rest, rfl, hrest⟩

/-- No tag is shown for literal text. -/
theorem not_mem_shownText {stripEnd : Bool} {literal : List Char} {read : Tag} :
    .tag read ∉ shownText strip stripEnd literal := by
  unfold shownText
  split <;> simp

end Layout

/-! ## 3. One tag in place of another -/

/-- Up to the end of opening braces it is no matter what stands behind them. -/
theorem prefix_before {before mark other : List Char} (h : mark <+: before ++ (openingMark ++ other))
    (hshort : mark.length ≤ 2) (rest : List Char) :
    mark <+: before ++ (openingMark ++ rest) := by
  rw [← List.append_assoc] at h ⊢
  refine (List.prefix_of_prefix_length_le h (List.prefix_append _ _) ?_).trans (List.prefix_append _ _)
  simp only [openingMark, List.length_append, List.length_cons]
  omega

/-- What stands behind the opening braces is no matter for the literal text before them. -/
theorem literal_before {before rest : List Char} (other : List Char)
    (h : literal (before ++ (openingMark ++ rest)) = (before, openingMark ++ rest)) :
    literal (before ++ (openingMark ++ other)) = (before, openingMark ++ other) := by
  generalize htext : before ++ (openingMark ++ rest) = text at h
  fun_induction literal text generalizing before with
  | case1 => cases h
  | case2 text front back e ih =>
    cases h
    have htext : front ++ (openingMark ++ rest) = text := by simpa using htext
    have hread := ih htext e
    simp only [List.cons_append, literal, hread]
  | case3 text =>
    cases h
    rfl
  | case4 c text hescaped hopen front back e ih =>
    cases h
    have htext : front ++ (openingMark ++ rest) = text := (List.cons.inj htext).2
    have hread := ih htext e
    rw [List.cons_append, literal, hread]
    · intro more hc hmore
      have hmark : openingMark <+: front ++ (openingMark ++ other) := ⟨more, hmore.symm⟩
      obtain ⟨behind, hbehind⟩ := prefix_before hmark (Nat.le_refl 2) rest
      exact hescaped behind hc (htext.symm.trans hbehind.symm)
    · intro more hc hmore
      have hmark : ['\x7b'] <+: front ++ (openingMark ++ other) := ⟨more, hmore.symm⟩
      obtain ⟨behind, hbehind⟩ := prefix_before hmark (Nat.le_succ 1) rest
      exact hopen behind hc (htext.symm.trans hbehind.symm)

namespace Layout

/-- Another tag may stand in a layout, and other things behind it. -/
theorem Proper.exchange {literal : List Char} {tag : WrittenTag} {behind : Layout}
    (h : (turn literal tag behind).Proper) (other : WrittenTag) {rest : Layout} (hrest : rest.Proper) :
    (turn literal other rest).Proper := by
  have hread := literal_turn h
  rw [WrittenTag.text, List.append_assoc] at hread
  have hliteral := literal_before (other.behind ++ rest.text) hread
  rw [← List.append_assoc openingMark] at hliteral
  obtain ⟨hfree, hopen⟩ := literal_spec (literal ++ (other.text ++ rest.text))
  rw [show Stache.literal (literal ++ (other.text ++ rest.text)) = _ from hliteral] at hfree hopen
  exact ⟨hfree, hopen (by simp [openingMark]), hrest⟩

end Layout

/-! ## 4. Tags with a `~` -/

/-- Neither side of the tag is stripped: no `~` stands behind its opening or before its closing braces. -/
structure WrittenTag.Plain (tag : WrittenTag) : Prop where
  opens : tag.strips = false
  closes : tag.stripsAfter = false

/-- **How a tag is closed that strips the blanks after it**: a `~` stands before its closing braces, or before
    the last two of three. A comment that is closed by dashes has it before these. -/
def Closing.stripping : Closing → List (List Char)
  | .double => [['~', '\x7d', '\x7d']]
  | .triple => [['~', '\x7d', '\x7d', '\x7d'], strippingMark]
  | .dashes => [['~', '-', '-', '\x7d', '\x7d']]

/-- The text of a tag with a `~` behind its opening braces or without, and closed in another way or as it
    was. -/
def WrittenTag.tilded (tag : WrittenTag) (opens : Bool) (closing : Option (List Char)) : List Char :=
  openingMark ++ ((if opens then ['~'] else []) ++ (tag.sigil ++ (tag.inside ++ closing.getD tag.mark)))

/-- A mark that stands in a text up to a character that is not in it stands before this character. -/
theorem prefix_of_not_mem {mark front behind : List Char} {c : Char} (hc : c ∉ mark)
    (h : mark <+: front ++ c :: behind) : mark <+: front := by
  by_cases hlength : mark.length ≤ front.length
  · exact List.prefix_of_prefix_length_le h (List.prefix_append _ _) hlength
  · have hfront : front ++ [c] <+: front ++ c :: behind := ⟨behind, by simp⟩
    have hlong : front ++ [c] <+: mark := List.prefix_of_prefix_length_le hfront h (by
      rw [List.length_append, List.length_singleton]
      omega)
    exact absurd (hlong.mem (by simp)) hc

/-- `}~}}` stands in front of a text that goes on with a `~` only if it stands before the `~`, or if one brace
    does. -/
theorem strippingMark_prefix {front behind : List Char} (hne : front ≠ [])
    (h : strippingMark <+: front ++ '~' :: behind) : strippingMark <+: front ∨ front = ['\x7d'] := by
  match front with
  | [a] => exact .inr (congrArg ([·]) (List.cons_prefix_cons.mp h).1.symm)
  | [a, b] => simp_all [strippingMark]
  | [a, b, c] => simp_all [strippingMark]
  | a :: b :: c :: d :: front =>
    exact .inl (List.prefix_of_prefix_length_le h (List.prefix_append _ _) (by simp [strippingMark]))

/-- With a `~` somewhere behind the inside, no mark closes the tag before. -/
theorem first_before {closing : Closing} {mark inside front behind other : List Char}
    (hm : mark ∈ closing.marks) (hmark : mark ≠ strippingMark) (hne : inside ≠ []) (hinside : inside <+: front)
    (hfront : front <+: inside ++ mark) (hother : other ∈ closing.marks)
    (hfirst : ∀ other ∈ closing.marks, ¬ other <+: inside ++ mark) :
    ¬ other <+: front ++ '~' :: behind := by
  intro h
  by_cases htilde : '~' ∈ other
  · have htriple : closing = .triple ∧ other = strippingMark := by
      revert other
      cases closing <;> simp [Closing.marks, strippingMark]
    obtain ⟨rfl, rfl⟩ := htriple
    have hbraces : mark = ['\x7d', '\x7d', '\x7d'] := by
      simpa [Closing.marks, hmark] using hm
    have hfrontne : front ≠ [] := fun e => hne (List.prefix_nil.mp (e ▸ hinside))
    rcases strippingMark_prefix hfrontne h with hin | rfl
    · exact hfirst _ hother (hin.trans hfront)
    · obtain rfl : inside = ['\x7d'] := hinside.eq_of_length_le (List.length_pos_iff.mpr hne)
      exact hfirst _ (.head _) ⟨['\x7d'], by rw [hbraces]; rfl⟩
  · exact hfirst other hother ((prefix_of_not_mem htilde h).trans hfront)

/-- No mark that closes a tag begins with a `~`. -/
theorem Closing.not_tilde {closing : Closing} {mark rest : List Char} (h : mark ∈ closing.marks) :
    ¬ mark <+: '~' :: rest := by
  have hfirst : ∀ closing : Closing, ∀ mark ∈ closing.marks, mark ≠ [] ∧ mark.head? ≠ some '~' := by
    intro closing
    cases closing <;> decide
  obtain ⟨hne, hhead⟩ := hfirst closing mark h
  obtain ⟨c, mark, rfl⟩ := List.exists_cons_of_ne_nil hne
  intro hp
  exact hhead (congrArg some (List.cons_prefix_cons.mp hp).1)

/-- How a tag that strips is closed, told by how the plain one is. -/
theorem Closing.stripping_cases {closing : Closing} {mark other : List Char} (h : mark ∈ closing.stripping)
    (hother : other ∈ closing.marks) (hplain : other ≠ strippingMark) : mark = '~' :: other ∨
      (other = ['\x7d', '\x7d', '\x7d'] ∧ mark = strippingMark ∧ mark ∈ closing.marks) := by
  cases closing with
  | double =>
    cases List.mem_singleton.mp h
    cases List.mem_singleton.mp hother
    exact .inl rfl
  | dashes =>
    cases List.mem_singleton.mp h
    cases List.mem_singleton.mp hother
    exact .inl rfl
  | triple =>
    obtain rfl : other = ['\x7d', '\x7d', '\x7d'] := by simpa [Closing.marks, hplain] using hother
    rcases List.mem_cons.mp h with rfl | hmem
    · exact .inl rfl
    · cases List.mem_singleton.mp hmem
      exact .inr ⟨rfl, rfl, .tail _ (.head _)⟩

namespace WrittenTag

variable {tag : WrittenTag}

theorem Plain.mark_ne (h : tag.Plain) : tag.mark ≠ strippingMark :=
  beq_eq_false_iff_ne.mp (Bool.or_eq_false_iff.mp h.closes).1

theorem Plain.getLast?_ne (h : tag.Plain) : (Text.trimEnd tag.inside).getLast? ≠ some '~' :=
  beq_eq_false_iff_ne.mp (Bool.or_eq_false_iff.mp h.closes).2

theorem Plain.held_eq (h : tag.Plain) : tag.held = tag.inside :=
  if_neg h.getLast?_ne

theorem Plain.text_eq (h : tag.Plain) : tag.text = tag.tilded false none := by
  rw [text, behind, h.opens]
  rfl

/-- Nothing closes a tag before its end that could end without a `~`, and ends with a `~` and more. -/
theorem Plain.first_ended (h : tag.Plain) {front inside mark rest : List Char} (hfront : tag.inside <+: front)
    (hwhole : front <+: tag.inside ++ tag.mark) (htext : inside ++ mark = front ++ '~' :: rest)
    (hinside : inside = tag.inside ∨ inside = tag.inside ++ ['~']) :
    ∀ k < inside.length, ∀ other ∈ tag.closing.marks, ¬ other <+: (inside ++ mark).drop k := by
  intro k hk other hother hp
  by_cases hlt : k < tag.inside.length
  · have hfirst : ∀ other ∈ tag.closing.marks, ¬ other <+: tag.inside.drop k ++ tag.mark := by
      intro other hother
      rw [← List.drop_append_of_le_length (Nat.le_of_lt hlt)]
      exact tag.first k hlt other hother
    have hwhole' := hwhole.drop k
    rw [List.drop_append_of_le_length (Nat.le_of_lt hlt)] at hwhole'
    rw [htext, List.drop_append_of_le_length (Nat.le_of_lt (hlt.trans_le hfront.length_le))] at hp
    have hne : tag.inside.drop k ≠ [] := fun e => absurd hlt (Nat.not_lt.mpr (List.drop_eq_nil_iff.mp e))
    exact first_before tag.closes h.mark_ne hne (hfront.drop k) hwhole' hother hfirst hp
  · obtain rfl | rfl := hinside
    · exact hlt hk
    · -- only the `~` is left of the inside
      obtain rfl : k = tag.inside.length := by
        rw [List.length_append, List.length_singleton] at hk
        omega
      rw [List.append_assoc, List.drop_left] at hp
      exact Closing.not_tilde hother hp

/-- A tag may end with a `~` and more if it could end without: nothing closes it before, and no other sigil
    fits. -/
theorem exists_ended (h : tag.Plain) {opens : Bool} {front inside mark rest : List Char}
    (hopens : opens = true ∨ tag.sigil ++ tag.inside ≠ []) (hfront : tag.inside <+: front)
    (hwhole : front <+: tag.inside ++ tag.mark) (htext : inside ++ mark = front ++ '~' :: rest)
    (hm : mark ∈ tag.closing.marks) (hinside : inside = tag.inside ∨ inside = tag.inside ++ ['~']) :
    ∃ other : WrittenTag, other.text = openingMark ++ ((if opens then ['~'] else []) ++
      (tag.sigil ++ (front ++ '~' :: rest))) ∧ other.kind = tag.kind ∧ other.strips = opens ∧
        other.inside = inside ∧ other.mark = mark := by
  have hbefore : tag.sigil ++ front <+: tag.sigil ++ (tag.inside ++ tag.mark) :=
    List.prefix_append_right_inj _ |>.mpr hwhole
  refine ⟨⟨opens, tag.sigil, tag.kind, tag.closing, inside, mark, ?unmarked, tag.known, ?longest, hm,
    ?first⟩, ?text, rfl, rfl, rfl, rfl⟩
  case text =>
    rw [text, behind, ← htext]
  case unmarked =>
    intro hclosed hp
    have hne : tag.sigil ++ front ≠ [] := fun e => by
      obtain ⟨hsigil, rfl⟩ := List.append_eq_nil_iff.mp e
      rcases hopens with rfl | hopens
      · cases hclosed
      · exact hopens (by rw [hsigil, List.prefix_nil.mp hfront]; rfl)
    rw [htext, ← List.append_assoc] at hp
    have hshort := List.prefix_of_prefix_length_le hp (List.prefix_append _ _) (List.length_pos_iff.mpr hne)
    exact tag.unmarked h.opens (hshort.trans hbefore)
  case longest =>
    intro other hother hp
    rw [htext, ← List.append_assoc] at hp
    have htilde : ∀ entry ∈ sigils, '~' ∉ entry.1 := by decide
    exact tag.longest other hother ((prefix_of_not_mem (htilde other hother) hp).trans hbefore)
  case first =>
    exact h.first_ended hfront hwhole htext hinside

/-- **With a `~` added a tag is a tag again**, of the same kind and with the same inside, and it strips. (In a
    tag without anything in it, one `~` between the braces stands behind the opening ones.) -/
theorem exists_tilded (h : tag.Plain) {opens : Bool} {closing : Option (List Char)}
    (hclosing : ∀ mark ∈ closing, mark ∈ tag.closing.stripping)
    (hopens : opens = true ∨ closing = none ∨ tag.sigil ++ tag.inside ≠ []) :
    ∃ other : WrittenTag, other.text = tag.tilded opens closing ∧ other.kind = tag.kind ∧
      other.held = tag.held ∧ other.strips = opens ∧ other.stripsAfter = closing.isSome := by
  cases closing with
  | none =>
    refine ⟨{ tag with strips := opens, unmarked := fun _ => tag.unmarked h.opens }, rfl, rfl, rfl, rfl, ?_⟩
    exact h.closes
  | some mark =>
    have hne : opens = true ∨ tag.sigil ++ tag.inside ≠ [] :=
      hopens.imp_right fun h => h.resolve_left (Option.some_ne_none mark)
    rcases Closing.stripping_cases (hclosing mark rfl) tag.closes h.mark_ne with rfl | ⟨hmark, rfl, hmem⟩
    · obtain ⟨other, htext, hkind, hstrips, hinside, -⟩ := exists_ended h hne (List.prefix_refl _)
        (List.prefix_append _ _) (List.append_cons _ _ _).symm tag.closes (.inr rfl)
      have hlast : Text.trimEnd other.inside = tag.inside ++ ['~'] := by
        rw [hinside, Text.trimEnd_concat (by decide)]
      refine ⟨other, htext, hkind, ?_, hstrips, ?_⟩
      · rw [held, hlast, List.getLast?_concat, if_pos rfl, List.dropLast_concat, h.held_eq]
      · rw [stripsAfter, hlast, List.getLast?_concat]
        exact Bool.or_true _
    · have hbrace : tag.inside ++ ['\x7d'] <+: tag.inside ++ tag.mark := by
        rw [hmark]
        exact List.prefix_append_right_inj _ |>.mpr ⟨['\x7d', '\x7d'], rfl⟩
      obtain ⟨other, htext, hkind, hstrips, hinside, hm⟩ := exists_ended h hne (List.prefix_append _ _) hbrace
        (List.append_cons tag.inside '\x7d' ['~', '\x7d', '\x7d']) hmem (.inl rfl)
      refine ⟨other, ?_, hkind, ?_, hstrips, ?_⟩
      · rw [htext, tilded, List.append_assoc]
        rfl
      · rw [held, hinside, if_neg h.getLast?_ne, h.held_eq]
      · rw [stripsAfter, hm]
        rfl

end WrittenTag

/-! ## 5. The segments of a text with a `~` more -/

/-- The segments around a tag, without the blanks beside it on the sides that are stripped. -/
def strippedAround (opens closes : Bool) (before : List Segment) (read : Tag) (after : List Segment) :
    List Segment :=
  (if opens then trimLast before else before) ++ .tag read :: (if closes then trimFirst after else after)

/-- The segments up to an earlier tag stay as they are. -/
theorem strippedAround_behind (opens closes : Bool) (front : List Segment) (first : Tag) (more : List Segment)
    (read : Tag) (after : List Segment) :
    strippedAround opens closes (front ++ .tag first :: more) read after =
      front ++ .tag first :: strippedAround opens closes more read after := by
  simp only [strippedAround, trimLast_behind]
  cases opens <;> simp

namespace Layout

variable {strip : Bool} {p : Position} {layout : Layout} {before after : List Segment} {read : Tag}

/-- The first tag of a layout with another one in its place that holds the same. -/
theorem Shows.replaced_first {literal : List Char} {tag other : WrittenTag} {tokens : List Token}
    {behind : Layout} (hplain : tag.Plain) (holds : tag.Holds tokens)
    (others : behind.Shows tag.stripsAfter (p.after (literal ++ tag.text)) after) (hkind : other.kind = tag.kind)
    (hheld : other.held = tag.held) (hlines : other.text.count '\n' = tag.text.count '\n') :
    ∃ segments, (Layout.turn literal other behind).Shows strip p segments ∧
      Moved segments (strippedAround other.strips other.stripsAfter (shownText strip tag.strips literal)
        ⟨tag.kind, tokens, p.after literal⟩ after) := by
  have hline : (p.after (literal ++ other.text)).line = (p.after (literal ++ tag.text)).line := by
    simp only [Position.line_after, List.count_append, hlines]
  have hholds : other.Holds tokens := by
    rw [WrittenTag.Holds, hkind, hheld]
    exact holds
  -- the literal text behind is shown with its front trimmed, or as it was
  have hafter : behind.Shows other.stripsAfter (p.after (literal ++ tag.text))
      (if other.stripsAfter then trimFirst after else after) := by
    rw [hplain.closes] at others
    cases other.stripsAfter with
    | true => exact others.stripped
    | false => exact others
  have hbefore : shownText strip other.strips literal =
      if other.strips then trimLast (shownText strip tag.strips literal)
      else shownText strip tag.strips literal := by
    rw [hplain.opens, trimLast_shownText]
    cases other.strips <;> rfl
  obtain ⟨moved, hmoved, hsame⟩ := hafter.moved hline
  refine ⟨_, .turn strip p literal hholds hmoved, ?_⟩
  rw [strippedAround, ← hbefore, hkind]
  exact (Moved.refl _).append (.cons (.tag _ _ rfl) hsame)

/-- **A tag in a text can be put in the place of another one that holds the same**: the segments stay the same,
    but for the blanks beside it and for the columns behind it. -/
theorem Shows.replaced (h : layout.Shows strip p (before ++ .tag read :: after)) (hproper : layout.Proper) :
    ∃ front tag behind, layout.text = front ++ (WrittenTag.text tag ++ behind) ∧
      read.position = p.after front ∧ read.kind = tag.kind ∧ tag.Holds read.tokens ∧
        (tag.Plain → ∀ other : WrittenTag, other.kind = tag.kind → other.held = tag.held →
          other.text.count '\n' = tag.text.count '\n' →
          ∃ (new : Layout) (segments : List Segment), new.Proper ∧
            new.text = front ++ (other.text ++ behind) ∧ new.Shows strip p segments ∧
              Moved segments (strippedAround other.strips other.stripsAfter before read after)) := by
  generalize hshown : before ++ .tag read :: after = shown at h
  induction h generalizing before with
  | last strip p literal => exact absurd (hshown ▸ List.mem_append_right _ (.head _)) not_mem_shownText
  | @turn strip p literal tag tokens behind segments holds others ih =>
    rcases eq_or_behind hshown with ⟨rfl, rfl, rfl⟩ | ⟨more, rfl, hsegments⟩
    · refine ⟨literal, tag, behind.text, rfl, rfl, rfl, holds, ?_⟩
      intro hplain other hkind hheld hlines
      obtain ⟨shown, hshows, hmoved⟩ := Shows.replaced_first hplain holds others hkind hheld hlines
      exact ⟨.turn literal other behind, shown, hproper.exchange other hproper.2.2, rfl, hshows, hmoved⟩
    · obtain ⟨front, found, rest, htext, hposition, hkind, hfound, hnew⟩ := ih hproper.2.2 hsegments.symm
      refine ⟨literal ++ (tag.text ++ front), found, rest, ?_, ?_, hkind, hfound, ?_⟩
      · rw [text, htext]
        simp only [List.append_assoc]
      · rw [hposition, ← List.append_assoc, ← Position.after_append]
      · intro hplain other hkind' hheld hlines
        obtain ⟨new, segments, hnewproper, hnewtext, hshows, hmoved⟩ :=
          hnew hplain other hkind' hheld hlines
        refine ⟨.turn literal tag new, _, hproper.exchange tag hnewproper, ?_,
          .turn strip p literal holds hshows, ?_⟩
        · rw [text, hnewtext]
          simp only [List.append_assoc]
        · rw [strippedAround_behind]
          exact (Moved.refl _).append (.cons (.refl _) hmoved)

end Layout

/-- A text that has a layout is scanned. -/
theorem Layout.Shows.scan {layout : Layout} {segments : List Segment} (h : layout.Shows false .start segments)
    (hproper : layout.Proper) : Stache.scan (String.ofList layout.text) = .ok segments := by
  rw [Stache.scan, String.toList_ofList, Stache.pieces, Layout.piecesFrom_eq hproper]
  exact Layout.shows_iff.mpr h

namespace WrittenTag

/-- A `~` takes no line. -/
theorem Plain.count_tilded {tag : WrittenTag} (h : tag.Plain) {opens : Bool} {closing : Option (List Char)}
    (hclosing : ∀ mark ∈ closing, mark ∈ tag.closing.stripping) :
    (tag.tilded opens closing).count '\n' = tag.text.count '\n' := by
  have hmarks : ∀ closing : Closing, ∀ mark ∈ closing.stripping ++ closing.marks, mark.count '\n' = 0 := by
    intro closing
    cases closing <;> decide
  have hmark := hmarks tag.closing tag.mark (List.mem_append_right _ tag.closes)
  have hend : (closing.getD tag.mark).count '\n' = 0 := by
    cases closing with
    | none => exact hmark
    | some mark => exact hmarks tag.closing mark (List.mem_append_left _ (hclosing mark rfl))
  rw [h.text_eq]
  simp only [tilded, List.count_append, hend, Option.getD_none, hmark]
  cases opens <;> rfl

end WrittenTag

/-- **With a `~` added to one of its tags a source text is scanned as before**, but for the blanks beside the
    tag. Every tag of an accepted source text is written in it where the tag was read. If it is written without
    `~`, of whatever kind it is, one may be added behind the opening braces, before the closing ones, or both:
    the text is accepted again, with the same tags and contents in the same order and on the same lines, and
    only the content right before the tag (behind it) is without the blanks at its end (at its front). -/
theorem scan_tilded {source : String} {before after : List Segment} {read : Tag}
    (h : scan source = .ok (before ++ .tag read :: after)) :
    ∃ front tag behind, source.toList = front ++ (WrittenTag.text tag ++ behind) ∧
      read.position = Position.start.after front ∧ read.kind = tag.kind ∧ tag.Holds read.tokens ∧
        (tag.Plain → ∀ (opens : Bool) (closing : Option (List Char)),
          (∀ mark ∈ closing, mark ∈ tag.closing.stripping) →
          (opens = true ∨ closing = none ∨ tag.sigil ++ tag.inside ≠ []) →
          ∃ segments, scan (String.ofList (front ++ (tag.tilded opens closing ++ behind))) = .ok segments ∧
            Moved segments (strippedAround opens closing.isSome before read after)) := by
  obtain ⟨layout, htext, hproper, -, hshows⟩ := scan_layout h
  obtain ⟨front, tag, behind, hwritten, hposition, hkind, hholds, hreplaced⟩ := hshows.replaced hproper
  refine ⟨front, tag, behind, htext.symm.trans hwritten, hposition, hkind, hholds, ?_⟩
  intro hplain opens closing hclosing hopens
  obtain ⟨other, hother, hsame, hheld, rfl, hstrips⟩ := WrittenTag.exists_tilded hplain hclosing hopens
  have hlines : other.text.count '\n' = tag.text.count '\n' := by
    rw [hother, hplain.count_tilded hclosing]
  obtain ⟨new, segments, hnew, hnewtext, hnewshows, hmoved⟩ := hreplaced hplain other hsame hheld hlines
  refine ⟨segments, ?_, hstrips ▸ hmoved⟩
  rw [← hother, ← hnewtext]
  exact hnewshows.scan hnew

/-- A tag between two contents. -/
def plainSource : String := "a \x7b\x7bb\x7d\x7d\n c"

theorem scan_plain : scan plainSource =
    .ok [.content "a ", .tag ⟨.escaped, [.id "b"], ⟨1, 3⟩⟩, .content "\n c"] := by
  have tokens : Token.tokenize ['b'] = .ok [.id "b"] := Token.tokenize_word (by decide)
  have pieces : pieces plainSource.toList =
      [.text ['a', ' '], .tag ⟨.escaped, false, false, ['b']⟩ ⟨1, 3⟩, .text ['\n', ' ', 'c']] := by
    decide +kernel
  rw [scan, pieces]
  simp only [Segment.ofPieces, Segment.readTag, tokens]
  decide +kernel

theorem scan_tilded_plain : scan plainSource =
      .ok ([.content "a "] ++ .tag ⟨.escaped, [.id "b"], ⟨1, 3⟩⟩ :: [.content "\n c"]) ∧
    ∃ front tag behind, plainSource.toList = front ++ (WrittenTag.text tag ++ behind) ∧
      (⟨1, 3⟩ : Position) = Position.start.after front ∧ .escaped = tag.kind ∧ tag.Holds [.id "b"] ∧
        (tag.Plain → ∀ (opens : Bool) (closing : Option (List Char)),
          (∀ mark ∈ closing, mark ∈ tag.closing.stripping) →
          (opens = true ∨ closing = none ∨ tag.sigil ++ tag.inside ≠ []) →
          ∃ segments, scan (String.ofList (front ++ (tag.tilded opens closing ++ behind))) = .ok segments ∧
            Moved segments (strippedAround opens closing.isSome [.content "a "]
              ⟨.escaped, [.id "b"], ⟨1, 3⟩⟩ [.content "\n c"])) :=
  ⟨scan_plain,
    @scan_tilded plainSource [.content "a "] [.content "\n c"] ⟨.escaped, [.id "b"], ⟨1, 3⟩⟩ scan_plain⟩

/-- **A `~` right before the closing braces of a comment with dashes loses the end of the comment**: only
    `--}}` closes it. -/
theorem comment_unclosed :
    scan "\x7b\x7b!-- c --\x7d\x7d x" = .ok [.tag ⟨.comment, [], ⟨1, 1⟩⟩, .content " x"] ∧
      scan "\x7b\x7b!-- c --~\x7d\x7d x" = .error ⟨.unclosedMustache, ⟨1, 1⟩⟩ := by
  decide +kernel

end Stache
