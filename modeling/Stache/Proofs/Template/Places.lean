import Mathlib.Data.List.DropRight
import Stache.Proofs.Template.Layout

/-!
# Places in a source text

A position is told by the text before it, and the scanner opens tags at opening braces only.

* `Position.line_after`, `Position.start_after` -- **the line counts line feeds, the column the bytes since the
  last one**;
* `OpenedAt`, `opened_pieces` -- **where a tag is opened, `{{` stands in the source text**.
-/

namespace Stache

/-! ## 1. Lines and columns -/

namespace Position

theorem after_append (p : Position) (text more : List Char) :
    p.after (text ++ more) = (p.after text).after more :=
  List.foldl_append

theorem line_after (p : Position) (text : List Char) : (p.after text).line = p.line + text.count '\n' := by
  induction text generalizing p with
  | nil => rfl
  | cons c text ih =>
    show ((p.step c).after text).line = _
    rw [ih, List.count_cons, step]
    by_cases h : c = '\n'
    · rw [if_pos h, if_pos (beq_iff_eq.mpr h)]
      exact Nat.add_right_comm _ _ _
    · rw [if_neg h, if_neg (mt beq_iff_eq.mp h)]
      rfl

/-- The bytes of a text in UTF-8. -/
def bytes (text : List Char) : Nat :=
  text.foldl (fun count c => count + c.utf8Size) 0

/-- The text behind the last line feed. -/
def lastLine (text : List Char) : List Char :=
  text.rtakeWhile (· != '\n')

theorem lastLine_concat (text : List Char) (c : Char) :
    lastLine (text ++ [c]) = if c = '\n' then [] else lastLine text ++ [c] := by
  rw [lastLine, List.rtakeWhile_concat]
  by_cases h : c = '\n'
  · rw [if_pos h, if_neg (by simpa using h)]
  · rw [if_neg h, if_pos (by simpa using h)]
    rfl

/-- **The position behind a text**: the line counts line feeds, the column the bytes since the last one. -/
theorem start_after (text : List Char) :
    start.after text = ⟨text.count '\n' + 1, bytes (lastLine text) + 1⟩ := by
  induction text using List.reverseRecOn with
  | nil => rfl
  | append_singleton text c ih =>
    rw [after_append, ih, lastLine_concat]
    show step _ c = _
    rw [step, List.count_append]
    by_cases h : c = '\n'
    · simp [h, bytes]
    · have hbytes : bytes (lastLine text ++ [c]) = bytes (lastLine text) + c.utf8Size := by
        rw [bytes, List.foldl_append]
        rfl
      rw [if_neg h, if_neg h, hbytes, List.count_singleton, if_neg (mt beq_iff_eq.mp h)]
      exact congrArg _ (Nat.add_right_comm _ _ _)

end Position

/-! ## 2. Where tags are opened -/

/-- Where the piece opens a tag, if it is no literal text. The tag may not be closed. -/
def Piece.opening? : Piece → Option Position
  | .text _ => none
  | .tag _ position => some position
  | .unclosed position => some position

/-- **The scanner opens a tag at this position.** -/
def OpenedAt (source : List Char) (position : Position) : Prop :=
  ∃ piece ∈ pieces source, piece.opening? = some position

/-- Literal text opens nothing. -/
theorem Piece.mem_of_opening? {piece : Piece} {raw : List Char} {others : List Piece} {position : Position}
    (h : piece ∈ Piece.ofText raw ++ others) (ho : piece.opening? = some position) : piece ∈ others := by
  refine (List.mem_append.mp h).resolve_left fun hm => ?_
  unfold Piece.ofText at hm
  split at hm
  · cases hm
  · cases List.mem_singleton.mp hm
    cases ho

/-- **How a text is cut**: it is literal text up to its end, up to braces behind which no tag is closed, or up to
    a tag with more text behind it. -/
theorem piecesFrom_cases (p : Position) (source : List Char) :
    piecesFrom p source = Piece.ofText (literal source).1 ∨
    (∃ text, source = (literal source).1 ++ (openingMark ++ text) ∧
      piecesFrom p source = Piece.ofText (literal source).1 ++ [.unclosed (p.after (literal source).1)]) ∨
    ∃ tag rest, source = (literal source).1 ++ (WrittenTag.text tag ++ rest) ∧
      piecesFrom p source = Piece.ofText (literal source).1 ++ .tag tag.raw (p.after (literal source).1) ::
        piecesFrom (p.after ((literal source).1 ++ tag.text)) rest := by
  by_cases hend : (literal source).2 = []
  · exact .inl (piecesFrom_last hend)
  · obtain ⟨text, htext⟩ := ((literal_spec source).2 hend).1
    rw [List.drop_left] at htext
    have hwhole : source = (literal source).1 ++ (openingMark ++ text) := by rw [htext, append_literal]
    cases hr : RawTag.read? text with
    | none => exact .inr (.inl ⟨text, hwhole, piecesFrom_unclosed htext.symm hr⟩)
    | some read =>
      obtain ⟨raw, rest⟩ := read
      obtain ⟨tag, rfl, rfl⟩ := exists_written hr
      rw [← List.append_assoc openingMark] at hwhole
      refine .inr (.inr ⟨tag, rest, hwhole, ?_⟩)
      have hused : source.take (source.length - rest.length) = (literal source).1 ++ tag.text := by
        rw [← List.append_assoc] at hwhole
        have hlength := congrArg List.length hwhole
        rw [hlength, List.length_append, Nat.add_sub_cancel]
        exact (congrArg _ hwhole).trans List.take_left
      rw [piecesFrom_turn htext.symm hr, hused]

/-- **Where a tag is opened, `{{` stands in the text.** -/
theorem opened_piecesFrom {p position : Position} {source : List Char} {piece : Piece}
    (h : piece ∈ piecesFrom p source) (ho : piece.opening? = some position) :
    ∃ front behind, source = front ++ (openingMark ++ behind) ∧ position = p.after front := by
  induction hn : source.length using Nat.strong_induction_on generalizing p source with
  | h n ih =>
    rcases piecesFrom_cases p source with hcut | ⟨text, hwhole, hcut⟩ | ⟨tag, rest, hwhole, hcut⟩
    · rw [hcut, ← List.append_nil (Piece.ofText _)] at h
      cases Piece.mem_of_opening? h ho
    · rw [hcut] at h
      cases List.mem_singleton.mp (Piece.mem_of_opening? h ho)
      cases ho
      exact ⟨_, text, hwhole, rfl⟩
    · rw [hcut] at h
      rcases List.mem_cons.mp (Piece.mem_of_opening? h ho) with rfl | hbehind
      · cases ho
        exact ⟨_, tag.behind ++ rest, hwhole.trans (by rw [WrittenTag.text, List.append_assoc]), rfl⟩
      · have hshort : rest.length < n := by
          have hlength := congrArg List.length hwhole
          simp only [WrittenTag.text, openingMark, List.length_append, List.length_cons] at hlength
          omega
        obtain ⟨front, behind, hrest, hafter⟩ := ih _ hshort hbehind rfl
        refine ⟨(literal source).1 ++ tag.text ++ front, behind, ?_, ?_⟩
        · rw [List.append_assoc, ← hrest, List.append_assoc]
          exact hwhole
        · rw [Position.after_append]
          exact hafter

/-- **A tag is opened at the position behind some text, where `{{` stands.** -/
theorem OpenedAt.mark {source : List Char} {position : Position} (h : OpenedAt source position) :
    ∃ front behind, source = front ++ (openingMark ++ behind) ∧ position = Position.start.after front := by
  obtain ⟨piece, hm, ho⟩ := h
  exact opened_piecesFrom hm ho

end Stache
