/-!
# Positions in a source text

Lines and columns count from one; a column counts the bytes of the UTF-8 encoding since the last line
feed.
-/

namespace Stache

/-- A place in a source text. -/
structure Position where
  /-- The line, from one. -/
  line : Nat
  /-- The byte column in the line, from one. -/
  column : Nat
  deriving DecidableEq, Repr, Inhabited

namespace Position

/-- Where every text begins. -/
def start : Position := ⟨1, 1⟩

/-- The place after one more character. -/
def step (p : Position) (c : Char) : Position :=
  if c = '\n' then ⟨p.line + 1, 1⟩ else ⟨p.line, p.column + c.utf8Size⟩

/-- The place after a stretch of text. -/
def after (p : Position) (text : List Char) : Position :=
  text.foldl step p

end Position

end Stache
