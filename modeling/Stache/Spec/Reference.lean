import Stache.Text.Quoted

/-!
# References

Generated code refers to names, string arguments and static content. Each of these is a reference: a
place where other code may be put. A reference that nobody replaces is written by `Reference.default`.
-/

namespace Stache

/-- What a name is looked up as. -/
inductive LookupKind where
  /-- A partial. -/
  | partialTemplate
  /-- A helper. -/
  | helper
  /-- A member of the context, or of what was looked up before it. -/
  | context
  /-- A data variable. -/
  | data
  deriving DecidableEq, Repr

/-- What a name is looked up on. -/
inductive Base where
  /-- The current context. -/
  | context
  /-- The context so many levels up. -/
  | ancestor (level : Nat)
  /-- A block parameter: the level of the body that declares it, counted from the innermost, and its
      place among the parameters of that body. -/
  | parameter (level slot : Nat)
  /-- The data variables. -/
  | data
  /-- The value that was looked up last. -/
  | held
  /-- The registered helpers. -/
  | helpers
  /-- The registered partials. -/
  | partials
  deriving DecidableEq, Repr

/-- How a base is written. -/
def Base.text : Base → String
  | .context => "depth0"
  | .ancestor level => "depths[" ++ toString level ++ "]"
  | .parameter level slot => "blockParams[" ++ toString level ++ "][" ++ toString slot ++ "]"
  | .data => "data"
  | .held => "stack1"
  | .helpers => "helpers"
  | .partials => "partials"

/-- A place in generated code where other code may be put. -/
inductive Reference where
  /-- A name, looked up on a base. -/
  | symbol (kind : LookupKind) (parent : Base) (name : String)
  /-- A string argument. -/
  | literal (value : String)
  /-- Static content. -/
  | chunk (text : String)
  deriving DecidableEq, Repr

/-- How a reference is written that nobody replaces: names are looked up when the template is rendered,
    texts stand for themselves. -/
def Reference.default : Reference → String
  | .symbol _ parent name => "lookupProperty(" ++ parent.text ++ "," ++ Text.quote name ++ ")"
  | .literal value => Text.quote value
  | .chunk text => Text.quote text

end Stache
