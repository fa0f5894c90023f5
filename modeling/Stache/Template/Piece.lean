import Stache.Position
import Stache.Text.Blank
import Stache.Text.Cut

/-!
# Pieces of a source text

A source text is literal text with tags in between. `pieces` cuts it, losing nothing: literal text is
kept as it is written, with `\{{` standing for two braces that open no tag, and a tag is kept with the
marks it was written with.

* `literal` reads up to the next unescaped `{{`;
* `RawTag.read?` reads one tag behind its opening braces: the mark `~` that strips the blanks before it,
  the sigil that tells its kind, and the inside up to the closing braces of that kind;
* `unescape` and `trimStart`/`trimEnd` are what literal text undergoes later.
-/

namespace Stache

/-! ## 1. Kinds of tags -/

/-- What opened a tag. -/
inductive TagKind where
  /-- `{{x}}` -/
  | escaped
  /-- `{{{x}}}` or `{{&x}}` -/
  | unescaped
  /-- `{{#x}}` -/
  | block
  /-- `{{#>x}}` -/
  | partialBlock
  /-- `{{^x}}`, or `{{^}}` for an else -/
  | inverse
  /-- `{{/x}}` -/
  | close
  /-- `{{>x}}` -/
  | partialTemplate
  /-- `{{! … }}` and `{{!-- … --}}` -/
  | comment
  deriving DecidableEq, Repr

/-- The closing marks of tags. -/
inductive Closing where
  /-- `}}` -/
  | double
  /-- `}}}`, or `}~}}` -/
  | triple
  /-- `--}}` -/
  | dashes
  deriving DecidableEq, Repr

/-- The kind that the sigil at the front of a text tells, the closing mark that goes with it, and the
    text behind the sigil. -/
def TagKind.ofSigil : List Char → TagKind × Closing × List Char
  | '\x7b' :: text => (.unescaped, .triple, text)
  | '&' :: text => (.unescaped, .double, text)
  | '#' :: '>' :: text => (.partialBlock, .double, text)
  | '#' :: text => (.block, .double, text)
  | '^' :: text => (.inverse, .double, text)
  | '/' :: text => (.close, .double, text)
  | '>' :: text => (.partialTemplate, .double, text)
  | '!' :: '-' :: '-' :: text => (.comment, .dashes, text)
  | '!' :: text => (.comment, .double, text)
  | text => (.escaped, .double, text)

/-- A sigil is part of the text. -/
theorem TagKind.length_ofSigil (text : List Char) :
    (TagKind.ofSigil text).2.2.length ≤ text.length := by
  fun_cases TagKind.ofSigil text <;> simp <;> omega

/-! ## 2. Closing marks -/

/-- The text before the first `}}}` or `}~}}`, whether it was the second, and the text after it. -/
def cutTriple? : List Char → Option (List Char × Bool × List Char)
  | '\x7d' :: '\x7d' :: '\x7d' :: text => some ([], false, text)
  | '\x7d' :: '~' :: '\x7d' :: '\x7d' :: text => some ([], true, text)
  | c :: text => (cutTriple? text).map fun (inner, strips, rest) => (c :: inner, strips, rest)
  | [] => none

/-- The text before a closing mark, whether the mark strips the blanks after it, and the text after
    the mark. -/
def Closing.cut? (closing : Closing) (text : List Char) : Option (List Char × Bool × List Char) :=
  match closing with
  | .double => (Text.cut? ['\x7d', '\x7d'] text).map fun (inner, rest) => (inner, false, rest)
  | .dashes =>
    (Text.cut? ['-', '-', '\x7d', '\x7d'] text).map fun (inner, rest) => (inner, false, rest)
  | .triple => cutTriple? text

/-- What follows a triple mark is shorter than the text. -/
theorem length_of_cutTriple? {text inner rest : List Char} {strips : Bool}
    (h : cutTriple? text = some (inner, strips, rest)) : rest.length < text.length := by
  fun_induction cutTriple? text generalizing inner strips rest with
  | case1 => simp only [Option.some.injEq, Prod.mk.injEq] at h; simp [← h.2.2]; omega
  | case2 => simp only [Option.some.injEq, Prod.mk.injEq] at h; simp [← h.2.2]; omega
  | case3 c text _ _ ih =>
    obtain ⟨⟨i, s, r⟩, hr, he⟩ := Option.map_eq_some_iff.1 h
    simp only [Prod.mk.injEq] at he
    obtain ⟨rfl, rfl, rfl⟩ := he
    have := ih hr
    simp only [List.length_cons]
    omega
  | case4 => simp at h

/-- What follows a closing mark is shorter than the text. -/
theorem Closing.length_of_cut? {closing : Closing} {text inner rest : List Char} {strips : Bool}
    (h : closing.cut? text = some (inner, strips, rest)) : rest.length < text.length := by
  cases closing with
  | triple => exact length_of_cutTriple? h
  | double =>
    obtain ⟨⟨i, r⟩, hr, he⟩ := Option.map_eq_some_iff.1 h
    simp only [Prod.mk.injEq] at he
    obtain ⟨rfl, _, rfl⟩ := he
    simp [Text.append_of_cut? hr]
    omega
  | dashes =>
    obtain ⟨⟨i, r⟩, hr, he⟩ := Option.map_eq_some_iff.1 h
    simp only [Prod.mk.injEq] at he
    obtain ⟨rfl, _, rfl⟩ := he
    simp [Text.append_of_cut? hr]
    omega

/-! ## 3. One tag -/

/-- A tag as it is written. -/
structure RawTag where
  /-- What opened it. -/
  kind : TagKind
  /-- The blanks before it are dropped. -/
  stripsBefore : Bool
  /-- The blanks after it are dropped. -/
  stripsAfter : Bool
  /-- The text between the sigil and the closing mark. -/
  inner : List Char
  deriving DecidableEq, Repr

/-- The inside of a tag without a trailing `~`, and whether there was one. -/
def splitTilde (inner : List Char) : List Char × Bool :=
  match Text.beforeMark? ['~'] (Text.trimEnd inner) with
  | some inner => (inner, true)
  | none => (inner, false)

/-- Whether a `~` stands at the front of a text, and the text behind it. -/
def frontTilde (text : List Char) : Bool × List Char :=
  match text with
  | '~' :: rest => (true, rest)
  | text => (false, text)

/-- Nothing is added. -/
theorem length_frontTilde (text : List Char) : (frontTilde text).2.length ≤ text.length := by
  fun_cases frontTilde text <;> simp

/-- The tag whose opening braces have just been read, and the text after it. None when it is not
    closed. -/
def RawTag.read? (text : List Char) : Option (RawTag × List Char) :=
  let (stripsBefore, body) := frontTilde text
  let (kind, closing, body) := TagKind.ofSigil body
  (closing.cut? body).map fun (inner, closerStrips, rest) =>
    let (inner, tilde) := splitTilde inner
    (⟨kind, stripsBefore, closerStrips || tilde, inner⟩, rest)

/-- What follows a tag is shorter than the text. -/
theorem RawTag.length_of_read? {text rest : List Char} {tag : RawTag}
    (h : RawTag.read? text = some (tag, rest)) : rest.length < text.length := by
  obtain ⟨⟨inner, strips, after⟩, hc, he⟩ := Option.map_eq_some_iff.1 h
  simp only [Prod.mk.injEq] at he
  obtain ⟨_, rfl⟩ := he
  exact Nat.lt_of_lt_of_le (Closing.length_of_cut? hc)
    (Nat.le_trans (TagKind.length_ofSigil _) (length_frontTilde text))

/-! ## 4. Literal text -/

/-- The text up to the next unescaped `{{`, and the text from there on. -/
def literal : List Char → List Char × List Char
  | [] => ([], [])
  | '\\' :: '\x7b' :: '\x7b' :: text =>
    let (before, rest) := literal text
    ('\\' :: '\x7b' :: '\x7b' :: before, rest)
  | '\x7b' :: '\x7b' :: text => ([], '\x7b' :: '\x7b' :: text)
  | c :: text =>
    let (before, rest) := literal text
    (c :: before, rest)

/-- Literal text and what follows are the whole text. -/
theorem append_literal (text : List Char) : (literal text).1 ++ (literal text).2 = text := by
  fun_induction literal text <;> simp_all

/-- The text with every `\{{` written as two braces. -/
def unescape : List Char → List Char
  | [] => []
  | '\\' :: '\x7b' :: '\x7b' :: text => '\x7b' :: '\x7b' :: unescape text
  | c :: text => c :: unescape text

/-! ## 5. All pieces -/

/-- A piece of a source text. -/
inductive Piece where
  /-- Literal text as it is written; not empty. -/
  | text (raw : List Char)
  /-- A tag, and where its opening braces stand. -/
  | tag (tag : RawTag) (position : Position)
  /-- Opening braces of a tag that is not closed. Nothing follows. -/
  | unclosed (position : Position)
  deriving DecidableEq, Repr

/-- The piece of literal text, if there is any. -/
def Piece.ofText (raw : List Char) : List Piece :=
  if raw = [] then [] else [.text raw]

/-- The pieces of a text that begins at a position. -/
def piecesFrom (p : Position) (source : List Char) : List Piece :=
  let before := (literal source).1
  Piece.ofText before ++
    (match h : (literal source).2 with
    | '\x7b' :: '\x7b' :: text =>
      match ht : RawTag.read? text with
      | none => [.unclosed (p.after before)]
      | some (tag, rest) =>
        have shorter : rest.length < source.length := by
          have hr := RawTag.length_of_read? ht
          have hs := congrArg List.length (append_literal source)
          simp only [h, List.length_append, List.length_cons] at hs
          omega
        let used := source.take (source.length - rest.length)
        .tag tag (p.after before) :: piecesFrom (p.after used) rest
    | _ => [])
termination_by source.length

/-- The pieces of a source text. -/
def pieces (source : List Char) : List Piece :=
  piecesFrom .start source

end Stache
