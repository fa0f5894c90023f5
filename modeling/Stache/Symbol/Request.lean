import Stache.Symbol.Table

/-!
# Requests

A name in a template is either a name to search for or, behind a `$`, the request itself. A request is
what is looked for in every search directory.
-/

namespace Stache

/-- What a name in a template stands for. -/
inductive NameReference where
  /-- A name to search for. -/
  | logical (name : String)
  /-- A request, to be used as it is. -/
  | request (text : String)
  deriving DecidableEq, Repr

namespace NameReference

/-- Reads a name. -/
def ofName (name : String) : NameReference :=
  match name.toList with
  | '$' :: text => .request (String.ofList text)
  | _ => .logical name

/-- The request for a symbol. The names of helpers stay bare when there are directories of helpers; all
    other names are looked for below `rootRelative`. -/
def requestFor (reference : NameReference) (kind : SymbolKind) (rootRelative : String)
    (hasHelperDirs : Bool) : String :=
  match reference with
  | .request text => text
  | .logical name =>
    if kind ≠ .partialTemplate ∧ hasHelperDirs then name else rootRelative ++ name

end NameReference

end Stache
