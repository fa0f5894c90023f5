import Stache.Template.Expression
import Stache.Template.Segment

/-!
# From segments to trees

`Template.parse` nests the segments of a template: blocks with their sections, chained elses, partial
blocks. A body ends at the end of the text, at a closing tag, or at an else, and whoever reads the body
decides whether that ending is right.

* A block has a body, any number of chained sections `{{else call}}`, at most one plain else, and a
  closing tag spelled as it was opened;
* a chained section is a block that is the only statement of the section before it, and shares the
  closing tag;
* `{{^x}}` swaps the two sections of a block.
-/

namespace Stache

/-- How a body ends. -/
inductive Ending where
  /-- At the end of the text. -/
  | eof
  /-- At a closing tag. -/
  | close (name : String) (position : Position)
  /-- At an else, which may chain another call. -/
  | otherwise (chain : Option Call) (position : Position)

/-- The segments that an ending takes. -/
def Ending.cost : Ending → Nat
  | .eof => 0
  | _ => 1

/-- A body, how it ends, and the segments that are left. -/
structure BodyRead (segments : List Segment) where
  /-- The statements. -/
  statements : List Statement
  /-- How the body ends. -/
  ending : Ending
  /-- What is left behind the ending. -/
  rest : List Segment
  /-- An ending other than the end of the text is a segment. -/
  fits : rest.length + ending.cost ≤ segments.length

/-- The body with one more statement in front, read from a longer list of segments. -/
def BodyRead.cons {segments longer : List Segment} (statement : Statement)
    (body : BodyRead segments) (h : segments.length ≤ longer.length) : BodyRead longer :=
  ⟨statement :: body.statements, body.ending, body.rest, Nat.le_trans body.fits h⟩

/-- The sections of a block up to its closing tag, and the segments that are left. -/
structure SectionsRead (segments : List Segment) where
  /-- The first section. -/
  main : List Statement
  /-- What is behind the else. -/
  inverse : Option Program
  /-- What is left behind the closing tag. -/
  rest : List Segment
  /-- Nothing is added. -/
  noLonger : rest.length ≤ segments.length

/-- The block whose sections have been read. -/
def Statement.ofSections (kind : TagKind) (call : Call) (params : List String)
    (main : List Statement) (inverse : Option Program) : Statement :=
  if kind = .inverse then .block call inverse (some ⟨main, params⟩)
  else .block call (some ⟨main, params⟩) inverse

mutual

/-- Reads statements up to an ending. -/
def readBody (segments : List Segment) : Except SyntaxError (BodyRead segments) :=
  match segments with
  | [] => .ok ⟨[], .eof, [], by simp [Ending.cost]⟩
  | .content text :: rest => do
    let body ← readBody rest
    return body.cons (.content text) (by simp)
  | .tag tag :: rest =>
    match tag.kind with
    | .comment => do
      let body ← readBody rest
      return ⟨body.statements, body.ending, body.rest, Nat.le_trans body.fits (by simp)⟩
    | .escaped =>
      if isElse tag.tokens then
        match tag.tokens.tail with
        | [] => .ok ⟨[], .otherwise none tag.position, rest, by simp [Ending.cost]⟩
        | tokens => do
          let chain ← (Call.ofTokens tag.position tokens).mapError tag.error
          return ⟨[], .otherwise (some chain) tag.position, rest, by simp [Ending.cost]⟩
      else do
        let call ← (Call.ofTokens tag.position tag.tokens).mapError tag.error
        let body ← readBody rest
        return body.cons (.mustache call true) (by simp)
    | .unescaped => do
      let call ← (Call.ofTokens tag.position tag.tokens).mapError tag.error
      let body ← readBody rest
      return body.cons (.mustache call false) (by simp)
    | .close => do
      let name ← (closeName tag.tokens).mapError tag.error
      return ⟨[], .close name tag.position, rest, by simp [Ending.cost]⟩
    | .partialTemplate => do
      let head ← (PartialHead.ofTokens tag.position tag.tokens).mapError tag.error
      let body ← readBody rest
      return body.cons (.partialTemplate head.name head.context head.hash none) (by simp)
    | .partialBlock => do
      let head ← (PartialHead.ofTokens tag.position tag.tokens).mapError tag.error
      let sections ← readSections head.name.spelling tag.position rest
      if sections.inverse.isSome then
        throw (tag.error .elseInPartial)
      have := sections.noLonger
      let body ← readBody sections.rest
      return body.cons
        (.partialTemplate head.name head.context head.hash (some ⟨sections.main, []⟩))
        (by simp only [List.length_cons]; omega)
    | kind => do
      if kind = .inverse ∧ tag.tokens = [] then
        return ⟨[], .otherwise none tag.position, rest, by simp [Ending.cost]⟩
      let (tokens, params) ← (splitParams tag.tokens).mapError tag.error
      let call ← (Call.ofTokens tag.position tokens).mapError tag.error
      let sections ← readSections call.callee.spelling tag.position rest
      have := sections.noLonger
      let body ← readBody sections.rest
      return body.cons (.ofSections kind call params sections.main sections.inverse)
        (by simp only [List.length_cons]; omega)
termination_by (segments.length, 0)

/-- Reads the sections of a block that was opened under a name at a position. -/
def readSections (name : String) (opened : Position) (segments : List Segment) :
    Except SyntaxError (SectionsRead segments) := do
  let first ← readBody segments
  have := first.fits
  match h : first.ending with
  | .eof => throw ⟨.unclosedBlock name, opened⟩
  | .close closed position =>
    if closed = name then
      return ⟨first.statements, none, first.rest, by omega⟩
    else throw ⟨.mismatchedClose name closed, position⟩
  | .otherwise none _ =>
    have : first.rest.length < segments.length := by simp only [h, Ending.cost] at this; omega
    let second ← readBody first.rest
    have := second.fits
    match second.ending with
    | .eof => throw ⟨.unclosedBlock name, opened⟩
    | .otherwise _ position => throw ⟨.duplicateElse name, position⟩
    | .close closed position =>
      if closed = name then
        return ⟨first.statements, some ⟨second.statements, []⟩, second.rest, by omega⟩
      else throw ⟨.mismatchedClose name closed, position⟩
  | .otherwise (some call) position =>
    have : first.rest.length < segments.length := by simp only [h, Ending.cost] at this; omega
    let chained ← readSections name position first.rest
    let block := Statement.block call (some ⟨chained.main, []⟩) chained.inverse
    return ⟨first.statements, some ⟨[block], []⟩, chained.rest, by
      have := chained.noLonger
      omega⟩
termination_by (segments.length, 1)

end

/-- The tree of a template's segments: the body has to end with the text. -/
def Program.ofSegments (segments : List Segment) : Except SyntaxError Program := do
  let body ← readBody segments
  match body.ending with
  | .eof => return ⟨body.statements, []⟩
  | .close name position => throw ⟨.strayClose name, position⟩
  | .otherwise _ position => throw ⟨.strayElse, position⟩

/-- The tree of a template. -/
def Program.parse (source : String) : Except SyntaxError Program := do
  Program.ofSegments (← scan source)

end Stache
