import Stache.Proofs.Template.Grammar
import Stache.Proofs.Template.Words
import Stache.Proofs.Template.Written
import Stache.Template.Segment

/-!
# The layout of a source text

A source text is literal text with tags in between, and it can be cut at its tags in one way only.

* `Layout` -- literal texts and tags by turns. `Layout.Proper` tells that all that opens a tag does so, and
  `Layout.Shows` what segments are shown for it;
* `Layout.Proper.unique` -- a text has one proper layout;
* `Layout.piecesFrom_eq`, `Layout.shows_iff` -- its pieces, and the segments of these;
* `scan_layout` -- **a source text that is accepted has one layout, and its segments are shown for it**.
-/

namespace Stache

/-! ## 1. Layouts -/

/-- Literal texts and tags by turns, with a literal text at either end. -/
inductive Layout where
  /-- Literal text up to the end. -/
  | last (literal : List Char)
  /-- Literal text, a tag, and what stands behind the tag. -/
  | turn (literal : List Char) (tag : WrittenTag) (behind : Layout)

/-- What the literal text between two tags shows: one content with two braces in place of each `\{{`, trimmed
    on the sides of tags that strip, or nothing if there is no literal text. -/
def shownText (stripStart stripEnd : Bool) (literal : List Char) : List Segment :=
  if literal = [] then []
  else
    let text := Text.replaceAll escapedMark openingMark literal
    let text := if stripStart then Text.trimStart text else text
    [.content (String.ofList (if stripEnd then Text.trimEnd text else text))]

/-- The tokens of the tag. A comment has none. -/
def WrittenTag.Holds (tag : WrittenTag) (tokens : List Token) : Prop :=
  if tag.kind = .comment then tokens = [] else Token.tokenize tag.held = .ok tokens

namespace Layout

/-- The text laid out. -/
def text : Layout → List Char
  | last literal => literal
  | turn literal tag behind => literal ++ (tag.text ++ behind.text)

/-- **A tag opens at each of the tags, and nowhere in a literal text.** -/
def Proper : Layout → Prop
  | last literal => Free literal []
  | turn literal tag behind => Free literal (tag.text ++ behind.text) ∧
      OpensAt (literal ++ (tag.text ++ behind.text)) literal.length ∧ behind.Proper

/-- **The segments shown for a layout** that begins at a position, behind a tag that strips the blanks after it
    or does not: the tags in order, and between them what the literal texts show. -/
inductive Shows : Bool → Position → Layout → List Segment → Prop where
  | last (strip : Bool) (p : Position) (literal : List Char) :
    Shows strip p (.last literal) (shownText strip false literal)
  | turn (strip : Bool) (p : Position) (literal : List Char) {tag : WrittenTag} {tokens : List Token}
    {behind : Layout} {segments : List Segment} (holds : tag.Holds tokens)
    (others : Shows tag.stripsAfter (p.after (literal ++ tag.text)) behind segments) :
    Shows strip p (.turn literal tag behind)
      (shownText strip tag.strips literal ++ .tag ⟨tag.kind, tokens, p.after literal⟩ :: segments)

/-- The pieces of a layout that begins at a position. -/
def pieces (p : Position) : Layout → List Piece
  | last literal => Piece.ofText literal
  | turn literal tag behind => Piece.ofText literal ++
      .tag tag.raw (p.after literal) :: behind.pieces (p.after (literal ++ tag.text))

theorem literal_last {literal : List Char} (h : (last literal).Proper) :
    Stache.literal literal = (literal, []) := by
  have := literal_eq h (fun hne => absurd rfl hne)
  simpa using this

theorem literal_turn {literal : List Char} {tag : WrittenTag} {behind : Layout}
    (h : (turn literal tag behind).Proper) :
    Stache.literal (literal ++ (tag.text ++ behind.text)) = (literal, tag.text ++ behind.text) :=
  literal_eq h.1 fun _ => h.2.1

/-- **A text has one proper layout.** -/
theorem Proper.unique {layout other : Layout} (h : layout.Proper) (h' : other.Proper)
    (htext : layout.text = other.text) : layout = other := by
  induction layout generalizing other with
  | last literal =>
    have hliteral := literal_last h
    cases other with
    | last literal' =>
      exact congrArg last htext
    | turn literal' tag' behind' =>
      rw [show literal = _ from htext, text, literal_turn h'] at hliteral
      exact absurd (Prod.mk.inj hliteral).2 (by simp [WrittenTag.text, openingMark])
  | turn literal tag behind ih =>
    have hliteral := literal_turn h
    rw [show literal ++ (tag.text ++ behind.text) = other.text from htext] at hliteral
    cases other with
    | last literal' =>
      rw [text, literal_last h'] at hliteral
      exact absurd (Prod.mk.inj hliteral).2 (by simp [WrittenTag.text, openingMark])
    | turn literal' tag' behind' =>
      rw [text, literal_turn h'] at hliteral
      obtain ⟨rfl, hbehind⟩ := Prod.mk.inj hliteral
      simp only [WrittenTag.text, List.append_assoc] at hbehind
      obtain ⟨rfl, hrest⟩ := WrittenTag.eq_of_behind (List.append_cancel_left hbehind)
      rw [ih h.2.2 h'.2.2 hrest.symm]

end Layout

/-! ## 2. The pieces of a text -/

section Pieces

variable {p : Position} {source before text rest : List Char}

theorem piecesFrom_last (h : (literal source).2 = []) :
    piecesFrom p source = Piece.ofText (literal source).1 := by
  rw [piecesFrom]
  simp [h]

theorem piecesFrom_unclosed (h : (literal source).2 = openingMark ++ text) (hr : RawTag.read? text = none) :
    piecesFrom p source = Piece.ofText (literal source).1 ++ [.unclosed (p.after (literal source).1)] := by
  rw [piecesFrom]
  congr 1
  split
  · rename_i text' h'
    obtain rfl : text' = text := by simpa [openingMark, h] using h'.symm
    split
    · rfl
    · rename_i ht
      rw [hr] at ht
      cases ht
  · rename_i hne
    exact absurd h (hne text)

theorem piecesFrom_turn {raw : RawTag} (h : (literal source).2 = openingMark ++ text)
    (hr : RawTag.read? text = some (raw, rest)) :
    piecesFrom p source = Piece.ofText (literal source).1 ++ .tag raw (p.after (literal source).1) ::
      piecesFrom (p.after (source.take (source.length - rest.length))) rest := by
  rw [piecesFrom]
  congr 1
  split
  · rename_i text' h'
    obtain rfl : text' = text := by simpa [openingMark, h] using h'.symm
    split
    · rename_i ht
      rw [hr] at ht
      cases ht
    · rename_i ht
      rw [hr] at ht
      cases ht
      rfl
  · rename_i hne
    exact absurd h (hne text)

end Pieces

namespace Layout

variable {layout : Layout} {source : List Char}

/-- **A text is cut into the pieces of its layout.** -/
theorem piecesFrom_eq (h : layout.Proper) (p : Position) : piecesFrom p layout.text = layout.pieces p := by
  induction layout generalizing p with
  | last literal =>
    have hliteral := literal_last h
    rw [text, piecesFrom_last (by rw [hliteral]), hliteral, pieces]
  | turn literal tag behind ih =>
    have hliteral := literal_turn h
    have hbehind : (Stache.literal (literal ++ (tag.text ++ behind.text))).2 =
        openingMark ++ (tag.behind ++ behind.text) := by
      rw [hliteral, WrittenTag.text, List.append_assoc]
    rw [text, piecesFrom_turn hbehind (tag.read?_behind behind.text), hliteral, ih h.2.2, pieces]
    have hused : (literal ++ (tag.text ++ behind.text)).take
        ((literal ++ (tag.text ++ behind.text)).length - behind.text.length) = literal ++ tag.text := by
      rw [← List.append_assoc]
      exact List.take_left' (by simp only [List.length_append, Nat.add_sub_cancel])
    rw [hused]

/-- **A text without unclosed tags has a layout.** -/
theorem exists_of_closed (p : Position) (h : ∀ q, Piece.unclosed q ∉ piecesFrom p source) :
    ∃ layout : Layout, layout.text = source ∧ layout.Proper := by
  induction hn : source.length using Nat.strong_induction_on generalizing p source with
  | h n ih =>
    obtain ⟨hfree, hopen⟩ := literal_spec source
    have happend := append_literal source
    by_cases hend : (literal source).2 = []
    · rw [hend, List.append_nil] at happend
      rw [hend, happend] at hfree
      exact ⟨.last source, rfl, hfree⟩
    · obtain ⟨text, htext⟩ := (hopen hend).1
      rw [List.drop_left] at htext
      cases hr : RawTag.read? text with
      | none =>
        refine absurd ?_ (h (p.after (literal source).1))
        rw [piecesFrom_unclosed htext.symm hr]
        simp
      | some read =>
        obtain ⟨raw, rest⟩ := read
        obtain ⟨tag, rfl, -⟩ := exists_written hr
        have hshort : rest.length < n := by
          have := congrArg List.length happend
          rw [← htext] at this
          simp only [openingMark, List.length_append, List.length_cons] at this
          omega
        obtain ⟨layout, hlayout, hproper⟩ := ih rest.length hshort _ (fun q hq => h q (by
          rw [piecesFrom_turn htext.symm hr]
          exact List.mem_append_right _ (List.mem_cons_of_mem _ hq))) rfl
        have hwritten : (literal source).2 = tag.text ++ layout.text := by
          rw [← htext, hlayout, WrittenTag.text, List.append_assoc]
        rw [hwritten] at hfree hopen happend
        exact ⟨.turn (literal source).1 tag layout, happend, hfree, hopen (by
          simp [WrittenTag.text, openingMark]), hproper⟩

end Layout

/-! ## 3. The segments of a text -/

theorem shownText_eq (stripStart stripEnd : Bool) (literal : List Char) :
    shownText stripStart stripEnd literal =
      if literal = [] then [] else [.content (Segment.contentOf literal stripStart stripEnd)] := by
  simp only [shownText, Segment.contentOf, unescape_eq]

/-- A literal text is shown by itself; what follows does not depend on it. -/
theorem Segment.ofPieces_ofText {strip : Bool} {literal : List Char} {others : List Piece}
    (h : ∀ strip, ofPieces strip others = ofPieces false others) :
    ofPieces strip (Piece.ofText literal ++ others) =
      (ofPieces false others).map (shownText strip (stripsBefore others) literal ++ ·) := by
  rw [shownText_eq, Piece.ofText]
  by_cases hempty : literal = []
  · simp only [hempty, if_true, List.nil_append, h strip]
    cases ofPieces false others <;> rfl
  · simp only [hempty, if_false]
    show ofPieces strip (.text literal :: others) = _
    rw [ofPieces]
    cases ofPieces false others <;> rfl

theorem WrittenTag.readTag_eq {tag : WrittenTag} {p : Position} {read : Tag} :
    Segment.readTag tag.raw p = .ok read ↔ ∃ tokens, tag.Holds tokens ∧ read = ⟨tag.kind, tokens, p⟩ := by
  unfold Segment.readTag Holds
  cases hkind : tag.kind with
  | comment => simp [raw, hkind, eq_comm]
  | _ =>
    simp only [raw, hkind]
    cases Token.tokenize tag.held <;> simp [eq_comm]

/-- A tag is read before what follows it. -/
theorem Segment.ofPieces_tag {strip : Bool} {raw : RawTag} {p : Position} {others : List Piece}
    {segments : List Segment} : ofPieces strip (.tag raw p :: others) = .ok segments ↔
      ∃ read behind, readTag raw p = .ok read ∧ ofPieces raw.stripsAfter others = .ok behind ∧
        segments = .tag read :: behind := by
  rw [ofPieces]
  simp only [bind_eq_ok, pure, Except.pure, Except.ok.injEq, exists_and_left, eq_comm (b := segments)]

/-- **The segments of a layout's pieces are shown for it.** -/
theorem Layout.shows_iff {layout : Layout} {strip : Bool} {p : Position} {segments : List Segment} :
    Segment.ofPieces strip (layout.pieces p) = .ok segments ↔ layout.Shows strip p segments := by
  induction layout generalizing strip p segments with
  | last literal =>
    have hpieces : Segment.ofPieces strip ((last literal).pieces p) = .ok (shownText strip false literal) := by
      rw [pieces, ← List.append_nil (Piece.ofText literal), Segment.ofPieces_ofText fun _ => rfl,
        Segment.ofPieces, Except.map, List.append_nil]
      rfl
    rw [hpieces, Except.ok.injEq]
    constructor
    · intro h
      subst h
      exact .last strip p literal
    · intro h
      cases h with
      | last => rfl
  | turn literal tag behind ih =>
    rw [pieces, Segment.ofPieces_ofText fun _ => rfl]
    constructor
    · intro h
      obtain ⟨shown, hshown, rfl⟩ := map_eq_ok.mp h
      obtain ⟨read, others, hread, hothers, rfl⟩ := Segment.ofPieces_tag.mp hshown
      obtain ⟨tokens, holds, rfl⟩ := WrittenTag.readTag_eq.mp hread
      exact .turn strip p literal holds (ih.mp hothers)
    · intro h
      cases h with
      | turn _ _ _ holds others =>
        rw [Segment.ofPieces_tag.mpr ⟨_, _, WrittenTag.readTag_eq.mpr ⟨_, holds, rfl⟩, ih.mpr others, rfl⟩]
        rfl

/-- What is not closed is not accepted. -/
theorem Segment.closed_of_ofPieces {strip : Bool} {pieces : List Piece} {segments : List Segment}
    (h : ofPieces strip pieces = .ok segments) (q : Position) : .unclosed q ∉ pieces := by
  induction pieces generalizing strip segments with
  | nil => simp
  | cons piece others ih =>
    cases piece with
    | unclosed => cases h
    | tag raw p =>
      obtain ⟨_, _, _, hothers, _⟩ := ofPieces_tag.mp h
      simpa using ih hothers
    | text literal =>
      cases hothers : ofPieces false others with
      | error e =>
        rw [ofPieces, hothers] at h
        cases h
      | ok => simpa using ih hothers

/-- **A source text that is accepted has one layout, and its segments are shown for it**: it is cut at the tags
    that open in it in one way only, each tag reaches to just past the first mark that closes it, and the
    segments are these tags, in order, and the literal texts between them. -/
theorem scan_layout {source : String} {segments : List Segment} (h : scan source = .ok segments) :
    ∃ layout : Layout, layout.text = source.toList ∧ layout.Proper ∧
      (∀ other : Layout, other.text = source.toList → other.Proper → other = layout) ∧
      layout.Shows false .start segments := by
  obtain ⟨layout, htext, hproper⟩ := Layout.exists_of_closed .start (Segment.closed_of_ofPieces h)
  refine ⟨layout, htext, hproper, ?_, ?_⟩
  · intro other htext' hproper'
    exact hproper'.unique hproper (htext'.trans htext.symm)
  · rw [scan, Stache.pieces, ← htext, Layout.piecesFrom_eq hproper] at h
    exact Layout.shows_iff.mp h

/-- Escaped braces, a tag that strips on both sides, and a comment. -/
def strippingSource : String := " \\\x7b\x7b\x7b \x7b\x7b~\x7bb\x7d~\x7d\x7d c\x7b\x7b!~\x7d\x7d"

def strippingSegments : List Segment :=
  [.content " \x7b\x7b\x7b", .tag ⟨.unescaped, [.id "b"], ⟨1, 7⟩⟩, .content "c", .tag ⟨.comment, [], ⟨1, 18⟩⟩]

theorem scan_stripping : scan strippingSource = .ok strippingSegments := by
  have tokens : Token.tokenize ['b'] = .ok [.id "b"] := Token.tokenize_word (by decide)
  have pieces : pieces strippingSource.toList =
      [.text [' ', '\\', '\x7b', '\x7b', '\x7b', ' '], .tag ⟨.unescaped, true, true, ['b']⟩ ⟨1, 7⟩,
        .text [' ', 'c'], .tag ⟨.comment, false, true, []⟩ ⟨1, 18⟩] := by decide +kernel
  rw [scan, pieces]
  simp only [Segment.ofPieces, Segment.readTag, tokens]
  decide +kernel

theorem scan_layout_stripping : scan strippingSource = .ok strippingSegments ∧
    ∃ layout : Layout, layout.text = strippingSource.toList ∧ layout.Proper ∧
      (∀ other : Layout, other.text = strippingSource.toList → other.Proper → other = layout) ∧
      layout.Shows false .start strippingSegments :=
  ⟨scan_stripping, scan_layout scan_stripping⟩

end Stache
