import Stache.Position

/-!
# Template trees

A template as a tree: a program is a list of statements, a statement is content, a mustache, a block or
a partial, and what mustaches and blocks call are expressions.

Calls and programs are written as structures over the type of what they hold, so that the two inductive
types, `Expr` and `Statement`, stay small.
-/

namespace Stache

/-! ## 1. Expressions -/

/-- A lookup such as `../user.name`, `this.title` or `@index`. -/
structure Lookup where
  /-- Written with `@`: a data variable. -/
  data : Bool
  /-- The number of `..` it begins with. -/
  depth : Nat
  /-- The names to follow. -/
  parts : List String
  /-- Written with `this`, or made of `..` alone. -/
  pinned : Bool
  /-- How it is spelled. -/
  spelling : String
  deriving DecidableEq, Repr

/-- Only a bare single name can be a helper's. -/
def Lookup.helperName? (l : Lookup) : Option String :=
  if !l.data && !l.pinned && l.depth == 0 then
    match l.parts with
    | [name] => some name
    | _ => none
  else none

/-- A callee with its arguments. -/
structure CallOf (ε : Type) where
  /-- What is called. -/
  callee : ε
  /-- The positional arguments. -/
  params : List ε
  /-- The named arguments. -/
  hash : List (String × ε)
  /-- Where the tag of the call begins. -/
  position : Position
  deriving DecidableEq, Repr

/-- The call has arguments. -/
def CallOf.hasArguments {ε : Type} (call : CallOf ε) : Bool :=
  !call.params.isEmpty || !call.hash.isEmpty

/-- An expression. -/
inductive Expr where
  /-- A lookup. -/
  | lookup (l : Lookup)
  /-- A string. -/
  | str (value : String)
  /-- A number, as it is spelled. -/
  | num (spelling : String)
  /-- `true` or `false` -/
  | bool (value : Bool)
  /-- `null` -/
  | null
  /-- `undefined` -/
  | undefined
  /-- A call in parentheses. -/
  | sub (call : CallOf Expr)

/-- A call of an expression with expressions. -/
abbrev Call := CallOf Expr

/-- The text of a truth value. -/
def boolText (b : Bool) : String :=
  if b then "true" else "false"

/-- The spelling that closing tags and options repeat. -/
def Expr.spelling : Expr → String
  | .lookup l => l.spelling
  | .str value => value
  | .num spelling => spelling
  | .bool value => boolText value
  | .null => "null"
  | .undefined => "undefined"
  | .sub ⟨callee, _, _, _⟩ => "(" ++ callee.spelling ++ ")"

/-! ## 2. Statements -/

/-- A sequence of statements and the block parameters that it declares. -/
structure ProgramOf (σ : Type) where
  /-- The statements. -/
  body : List σ
  /-- The names declared by `as |…|`. -/
  blockParams : List String

/-- A statement. -/
inductive Statement where
  /-- Static content. -/
  | content (text : String)
  /-- A mustache, escaped or not. -/
  | mustache (call : Call) (escaped : Bool)
  /-- A block with the section for true and the section for false. -/
  | block (call : Call) (main inverse : Option (ProgramOf Statement))
  /-- A partial with its context, its named arguments, and the body of a partial block. -/
  | partialTemplate (name : Expr) (context : Option Expr) (hash : List (String × Expr))
      (fallback : Option (ProgramOf Statement))

/-- The body of a template or of a section. -/
abbrev Program := ProgramOf Statement

end Stache
