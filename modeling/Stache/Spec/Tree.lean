import Stache.Spec.Reference
import Stache.Template.Tree

/-!
# Spec trees

A template spec as a tree, before it is written out as code. The trees are built over a type `ρ` of what
stands at the references: references themselves as long as nobody has been asked, then pieces of code.

A body becomes one function, a line one statement of it. The bodies of sections are held by the lines
they belong to; they get their numbers only when the spec is written.
-/

namespace Stache

/-- Members looked up one after the other, beginning on a base. -/
structure ChainOf (ρ : Type) where
  /-- Where the lookups begin. -/
  base : Base
  /-- The members. -/
  links : List ρ

/-- Evaluated arguments: positional ones, then named ones. -/
structure ArgumentsOf (ν : Type) where
  /-- The positional arguments. -/
  params : List ν
  /-- The named arguments. -/
  hash : List (String × ν)

/-- How a call is carried out. -/
inductive MannerOf (ρ ν : Type) where
  /-- A helper is called. -/
  | helper (helper : ρ) (arguments : ArgumentsOf ν)
  /-- The helper is called if there is one when the template is rendered, else the member of the context
      that has the same name is used. -/
  | ambiguous (member helper : ρ)
  /-- A value is called with arguments. -/
  | applied (value : ν) (arguments : ArgumentsOf ν)
  /-- A value without arguments, looked up or given. -/
  | plain (value : ν) (lookedUp : Bool)
  /-- A helper that must not be called. -/
  | refused

/-- A call in generated code. -/
structure InvocationOf (ρ ν : Type) where
  /-- The name that the call is known by. -/
  name : String
  /-- Where its tag begins. -/
  position : Position
  /-- How it is carried out. -/
  manner : MannerOf ρ ν

/-- A value in generated code. -/
inductive ValueOf (ρ : Type) where
  /-- A chain of lookups. -/
  | chain (chain : ChainOf ρ)
  /-- A number, a truth value, `null` or `undefined`, as it is written. -/
  | constant (text : String)
  /-- A string. -/
  | literal (code : ρ)
  /-- The result of a call. -/
  | call (call : InvocationOf ρ (ValueOf ρ))

/-- A call with values for arguments. -/
abbrev InvocationIn (ρ : Type) := InvocationOf ρ (ValueOf ρ)

/-- The name of a partial. -/
inductive PartialNameOf (ρ : Type) where
  /-- Known: the partial is looked up. -/
  | known (name : String) (lookup : ρ)
  /-- Computed when the template is rendered. -/
  | computed (call : InvocationIn ρ)

/-- The lines of a function and the block parameters that it takes. -/
structure BodyOf (ℓ : Type) where
  /-- The lines. -/
  lines : List ℓ
  /-- The names of the block parameters. -/
  params : List String

/-- A line: what is appended to the output. -/
inductive LineOf (ρ : Type) where
  /-- Static content. -/
  | chunk (code : ρ)
  /-- The result of a call, escaped. -/
  | escaped (call : InvocationIn ρ)
  /-- The result of a call, as it is. -/
  | unescaped (call : InvocationIn ρ)
  /-- The result of a block: its two sections, and the call that picks one. -/
  | block (main inverse : Option (BodyOf (LineOf ρ))) (call : InvocationIn ρ)
  /-- A rendered partial. -/
  | partialTemplate (name : PartialNameOf ρ) (context : Option (ValueOf ρ))
      (hash : List (String × ValueOf ρ)) (fallback : Option (BodyOf (LineOf ρ)))

/-- A body of lines over `ρ`. -/
abbrev BodyIn (ρ : Type) := BodyOf (LineOf ρ)

end Stache
