import Stache.Template.Piece
import Stache.Template.Token.Reading

/-!
# Segments

What a template consists of once its pieces are read: static content, with the blanks dropped that
neighbouring tags strip, and tags with their tokens. `scan` stops at the first tag, in source order,
that is not closed or whose inside is not made of tokens.
-/

namespace Stache

/-- A tag with its tokens. -/
structure Tag where
  /-- What opened it. -/
  kind : TagKind
  /-- Its tokens; none for a comment. -/
  tokens : List Token
  /-- Where its opening braces stand. -/
  position : Position
  deriving DecidableEq, Repr

/-- The error of a fault in this tag. -/
def Tag.error (tag : Tag) (fault : Fault) : SyntaxError :=
  ⟨fault, tag.position⟩

/-- Static content or a tag. -/
inductive Segment where
  /-- Static content. It is empty when stripping took all of it. -/
  | content (text : String)
  /-- A tag. -/
  | tag (tag : Tag)
  deriving DecidableEq, Repr

namespace Segment

/-- The next piece strips the blanks before it. -/
def stripsBefore : List Piece → Bool
  | .tag raw _ :: _ => raw.stripsBefore
  | _ => false

/-- The content of literal text between two tags. -/
def contentOf (raw : List Char) (stripStart stripEnd : Bool) : String :=
  let text := unescape raw
  let text := if stripStart then Text.trimStart text else text
  String.ofList (if stripEnd then Text.trimEnd text else text)

/-- The tag that a written tag stands for. -/
def readTag (raw : RawTag) (position : Position) : Except SyntaxError Tag :=
  match raw.kind with
  | .comment => .ok ⟨.comment, [], position⟩
  | kind =>
    match Token.tokenize raw.inner with
    | .ok tokens => .ok ⟨kind, tokens, position⟩
    | .error fault => .error ⟨fault, position⟩

/-- The segments of pieces, behind a piece that strips the blanks after it or does not. -/
def ofPieces (stripStart : Bool) : List Piece → Except SyntaxError (List Segment)
  | [] => .ok []
  | .unclosed position :: _ => .error ⟨.unclosedMustache, position⟩
  | .text raw :: rest => do
    let segments ← ofPieces false rest
    return .content (contentOf raw stripStart (stripsBefore rest)) :: segments
  | .tag raw position :: rest => do
    let read ← readTag raw position
    let segments ← ofPieces raw.stripsAfter rest
    return .tag read :: segments

end Segment

/-- The segments of a template. -/
def scan (source : String) : Except SyntaxError (List Segment) :=
  Segment.ofPieces false (pieces source.toList)

end Stache
