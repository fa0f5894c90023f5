import Stache.Template.Fault
import Stache.Template.Tree

/-!
# Reading expressions

Expressions are read from the tokens of one tag. Every reader returns the tokens that it leaves, with the
proof that there are fewer of them, so the mutual recursion ends.

* `Lookup.read`: an optional `@`, any number of `..`, then names with separators between them;
* `readExpr`: a literal, a lookup, or a call in parentheses;
* `readCall`: an expression with its arguments;
* `readArguments`: positional arguments, then named ones, up to a closing parenthesis or the end.
-/

namespace Stache

/-- A value read from the front of some tokens, and the tokens that are left. -/
structure Read (α : Type) (tokens : List Token) where
  /-- What was read. -/
  value : α
  /-- What is left. -/
  rest : List Token
  /-- Something was read. -/
  shorter : rest.length < tokens.length

/-! ## 1. Lookups -/

/-- The `..` steps at the front of a lookup. -/
structure Climb (tokens : List Token) where
  /-- Their number. -/
  depth : Nat
  /-- How they are spelled, separators included. -/
  spelling : String
  /-- The last step ended with a separator, or there was no step: names have to follow. -/
  goesOn : Bool
  /-- What is left. -/
  rest : List Token
  /-- Steps that end the lookup are at least one. -/
  shorter : rest.length + (if goesOn then 0 else 1) ≤ tokens.length

/-- Names that follow the steps leave less. -/
theorem Climb.shorter_names {tokens : List Token} {steps : Climb tokens} (h : steps.goesOn = true)
    {α : Type} (names : Read α steps.rest) : names.rest.length < tokens.length := by
  have := names.shorter
  have := steps.shorter
  simp only [h] at this
  simp at this
  omega

/-- So do steps that no names follow. -/
theorem Climb.shorter_alone {tokens : List Token} {steps : Climb tokens} (h : ¬ steps.goesOn = true) :
    steps.rest.length < tokens.length := by
  have := steps.shorter
  simp only [h] at this
  simp at this
  omega

/-- Reads the `..` steps. -/
def climb : (tokens : List Token) → Climb tokens
  | .dotDot :: .sep mark :: tokens =>
    let above := climb tokens
    ⟨above.depth + 1, ".." ++ String.singleton mark.char ++ above.spelling, above.goesOn,
      above.rest, by have := above.shorter; simp only [List.length_cons]; omega⟩
  | .dotDot :: tokens => ⟨1, "..", false, tokens, by simp⟩
  | tokens => ⟨0, "", true, tokens, by simp⟩

/-- Names with separators between them, and how they are spelled. -/
def readNames : (tokens : List Token) → Except Fault (Read (List String × String) tokens)
  | .id name :: .sep mark :: .id next :: tokens => do
    let more ← readNames (.id next :: tokens)
    return ⟨(name :: more.value.1, name ++ String.singleton mark.char ++ more.value.2), more.rest,
      by have := more.shorter; simp only [List.length_cons] at *; omega⟩
  | .id name :: tokens => .ok ⟨([name], name), tokens, by simp⟩
  | _ => .error .missingSegment

/-- The lookup that the parts of its spelling make. Leading names `this` only tell that the lookup is
    about the context itself; a data variable has no such names. -/
def Lookup.ofNames (data : Bool) (depth : Nat) (names : List String) (spelling : String) : Lookup :=
  if data then ⟨true, depth, names, false, spelling⟩
  else ⟨false, depth, names.dropWhile (· == "this"), names.head? == some "this", spelling⟩

/-- Reads a lookup behind its `@`, if it has one. -/
def Lookup.readBody (data : Bool) (tokens : List Token) : Except Fault (Read Lookup tokens) :=
  let steps := climb tokens
  let mark := if data then "@" else ""
  if h : steps.goesOn then do
    let names ← readNames steps.rest
    return ⟨Lookup.ofNames data steps.depth names.value.1 (mark ++ steps.spelling ++ names.value.2),
      names.rest, Climb.shorter_names h names⟩
  else
    .ok ⟨⟨data, steps.depth, [], true, mark ++ steps.spelling⟩, steps.rest, Climb.shorter_alone h⟩

/-- Reads a lookup. -/
def Lookup.read : (tokens : List Token) → Except Fault (Read Lookup tokens)
  | .at :: tokens => do
    let body ← Lookup.readBody true tokens
    return ⟨body.value, body.rest, by have := body.shorter; simp only [List.length_cons]; omega⟩
  | tokens => Lookup.readBody false tokens

/-! ## 2. Expressions, calls and arguments -/

/-- Arguments, and the tokens that are left. -/
structure Arguments (tokens : List Token) where
  /-- The positional ones. -/
  params : List Expr
  /-- The named ones. -/
  hash : List (String × Expr)
  /-- What is left. -/
  rest : List Token
  /-- Nothing is added. -/
  noLonger : rest.length ≤ tokens.length

/-- Reads a lookup as an expression. -/
def readLookup (tokens : List Token) : Except Fault (Read Expr tokens) := do
  let l ← Lookup.read tokens
  return ⟨.lookup l.value, l.rest, l.shorter⟩

mutual

/-- Reads an expression of the tag at a position. -/
def readExpr (position : Position) (tokens : List Token) : Except Fault (Read Expr tokens) :=
  match tokens with
  | [] => .error .unexpectedEnd
  | .str value :: rest => .ok ⟨.str value, rest, by simp⟩
  | .num spelling :: rest => .ok ⟨.num spelling, rest, by simp⟩
  | .bool value :: rest => .ok ⟨.bool value, rest, by simp⟩
  | .null :: rest => .ok ⟨.null, rest, by simp⟩
  | .undefined :: rest => .ok ⟨.undefined, rest, by simp⟩
  | .openParen :: rest => do
    let call ← readCall position rest
    match h : call.rest with
    | .closeParen :: after =>
      return ⟨.sub call.value, after, by
        have := call.shorter
        simp only [h, List.length_cons] at *
        omega⟩
    | _ => throw .unclosedSubexpression
  | .sep mark :: _ => .error (.unexpectedToken (.sep mark))
  | .equals :: _ => .error (.unexpectedToken .equals)
  | .pipe :: _ => .error (.unexpectedToken .pipe)
  | .closeParen :: _ => .error (.unexpectedToken .closeParen)
  | .id name :: rest => readLookup (.id name :: rest)
  | .at :: rest => readLookup (.at :: rest)
  | .dotDot :: rest => readLookup (.dotDot :: rest)
termination_by (tokens.length, 0)

/-- Reads a callee with its arguments. -/
def readCall (position : Position) (tokens : List Token) : Except Fault (Read Call tokens) :=
  if tokens = [] then .error .missingExpression
  else do
    let callee ← readExpr position tokens
    have : callee.rest.length < tokens.length := callee.shorter
    let arguments ← readArguments position false callee.rest
    return ⟨⟨callee.value, arguments.params, arguments.hash, position⟩, arguments.rest,
      Nat.lt_of_le_of_lt arguments.noLonger callee.shorter⟩
termination_by (tokens.length, 1)

/-- Reads arguments; once a named one was read, no positional one may follow. -/
def readArguments (position : Position) (named : Bool) (tokens : List Token) :
    Except Fault (Arguments tokens) :=
  match tokens with
  | [] => .ok ⟨[], [], [], by simp⟩
  | .closeParen :: rest => .ok ⟨[], [], .closeParen :: rest, by simp⟩
  | .id key :: .equals :: rest => do
    let value ← readExpr position rest
    have : value.rest.length < rest.length := value.shorter
    let more ← readArguments position true value.rest
    return ⟨more.params, (key, value.value) :: more.hash, more.rest, by
      have := more.noLonger
      simp only [List.length_cons]
      omega⟩
  | tokens =>
    if named then .error .positionalAfterHash
    else do
      let value ← readExpr position tokens
      have : value.rest.length < tokens.length := value.shorter
      let more ← readArguments position false value.rest
      return ⟨value.value :: more.params, more.hash, more.rest, by
        have := more.noLonger
        omega⟩
termination_by (tokens.length, 2)

end

/-! ## 3. What whole tags hold -/

/-- The one call that all the tokens of a tag are. -/
def Call.ofTokens (position : Position) (tokens : List Token) : Except Fault Call := do
  let call ← readCall position tokens
  if call.rest.isEmpty then return call.value else throw .trailingTokens

/-- The name in a closing tag: one lookup or one string. -/
def closeName (tokens : List Token) : Except Fault String := do
  let (name, rest) ← match tokens with
    | .str value :: rest => pure (value, rest)
    | tokens => do
      let l ← Lookup.read tokens
      pure (l.value.spelling, l.rest)
  if rest.isEmpty then return name else throw .closeNotOnePath

/-- A partial's name, context and named arguments. Tokens behind a closing parenthesis are not looked
    at. -/
structure PartialHead where
  /-- The name, which may be computed. -/
  name : Expr
  /-- The context that the partial is rendered with. -/
  context : Option Expr
  /-- The named arguments. -/
  hash : List (String × Expr)

/-- The head of a partial tag. -/
def PartialHead.ofTokens (position : Position) (tokens : List Token) :
    Except Fault PartialHead := do
  let (name, rest) ← match tokens with
    | [] => throw .missingPartialName
    | tokens@(.openParen :: _) | tokens@(.str _ :: _) => do
      let e ← readExpr position tokens
      pure (e.value, e.rest)
    | tokens => do
      let e ← readLookup tokens
      pure (e.value, e.rest)
  let arguments ← readArguments position false rest
  match arguments.params with
  | [] => return ⟨name, none, arguments.hash⟩
  | [context] => return ⟨name, some context, arguments.hash⟩
  | _ => throw .extraPartialContext

/-- The tag is an else: its first token is the name `else`, and it is neither the start of a longer
    lookup nor a key. -/
def isElse : List Token → Bool
  | .id "else" :: .sep _ :: _ => false
  | .id "else" :: .equals :: _ => false
  | .id "else" :: _ => true
  | _ => false

/-- The tokens before `as |`, and those behind it. -/
def cutParams? : List Token → Option (List Token × List Token)
  | .id "as" :: .pipe :: tokens => some ([], tokens)
  | token :: tokens => (cutParams? tokens).map fun (before, after) => (token :: before, after)
  | [] => none

/-- The names up to a pipe that ends the tag. -/
def paramNames? : List Token → Option (List String)
  | [.pipe] => some []
  | .id name :: tokens => (paramNames? tokens).map (name :: ·)
  | _ => none

/-- The tokens of a block's call, and the block parameters behind it. -/
def splitParams (tokens : List Token) : Except Fault (List Token × List String) :=
  match cutParams? tokens with
  | none => .ok (tokens, [])
  | some (before, after) =>
    match paramNames? after with
    | some (name :: names) => .ok (before, name :: names)
    | _ => .error .malformedBlockParams

end Stache
