import Std.Data.ExtTreeSet
import Stache.Spec.Tree

/-!
# From template trees to spec trees

What a template tree means, decided name by name.

* A bare single name that no block parameter binds may be a helper's: it is one when it is known, has
  arguments, or is called in parentheses; otherwise it is ambiguous. When only the known helpers are
  allowed, an ambiguous name is plain data and an unknown one with arguments is refused.
* A lookup whose first name is bound begins at the block parameter, in the innermost body that declares
  it; all other lookups begin at a context or at the data variables.
-/

namespace Stache

/-- What the reader of a template is told about helpers. -/
structure Hints where
  /-- No helpers but the known ones may be called. -/
  knownHelpersOnly : Bool
  /-- The names that are helpers. -/
  known : Std.ExtTreeSet String

/-- The block parameters of the enclosing bodies, the innermost first. -/
abbrev Scope := List (List String)

/-- The innermost body that binds a name, counted from the innermost, and the place of the name among
    its block parameters. -/
def Scope.slot? (name : String) : Scope → Option (Nat × Nat)
  | [] => none
  | params :: outer =>
    match params.idxOf? name with
    | some slot => some (0, slot)
    | none => (Scope.slot? name outer).map fun (level, slot) => (level + 1, slot)

/-! ## 1. Lookups -/

/-- The references of member names: the first one on the base, the others on what came before. -/
def linksOf (kind : LookupKind) (base : Base) : List String → List Reference
  | [] => []
  | part :: parts => .symbol kind base part :: parts.map (.symbol .context .held)

/-- A chain of lookups. -/
def chainOf (kind : LookupKind) (base : Base) (parts : List String) : ChainOf Reference :=
  ⟨base, linksOf kind base parts⟩

/-- The block parameter that a lookup begins at. -/
def Lookup.slot? (scope : Scope) (l : Lookup) : Option (Nat × Nat) :=
  if l.data || l.pinned || l.depth != 0 then none
  else l.parts.head?.bind fun name => scope.slot? name

/-- The chain that a lookup is. -/
def Lookup.chain (scope : Scope) (l : Lookup) : ChainOf Reference :=
  if l.data then chainOf .data .data l.parts
  else
    match l.slot? scope with
    | some (level, slot) => chainOf .context (.parameter level slot) l.parts.tail
    | none => chainOf .context (if l.depth = 0 then .context else .ancestor l.depth) l.parts

/-! ## 2. Calls -/

/-- How the callee of a call is treated. -/
inductive CalleeKind where
  /-- As the helper of a name. -/
  | helper (name : String)
  /-- As a helper or as a member of the context. -/
  | ambiguous (name : String)
  /-- As a value. -/
  | value
  /-- As a helper that must not be called. -/
  | refused (name : String)
  deriving DecidableEq, Repr

/-- The name that a callee has as a possible helper. -/
def Expr.helperName? (scope : Scope) : Expr → Option String
  | .lookup l => l.helperName?.filter fun name => (scope.slot? name).isNone
  | _ => none

/-- How the callee of a call is treated; `isSub` tells that the call stands in parentheses. -/
def Call.calleeKind (hints : Hints) (scope : Scope) (isSub : Bool) (call : Call) : CalleeKind :=
  match call.callee.helperName? scope with
  | none => .value
  | some name =>
    if name ∈ hints.known then .helper name
    else if call.hasArguments || isSub then
      if hints.knownHelpersOnly then .refused name else .helper name
    else if hints.knownHelpersOnly then .value
    else .ambiguous name

/-- The reference of a helper. -/
def helperReference (name : String) : Reference :=
  .symbol .helper .helpers name

/-- The callee is looked up, not given or computed. -/
def Expr.isLookup : Expr → Bool
  | .lookup _ => true
  | _ => false

/-- The manner of a call, from its callee and its arguments as values. -/
def mannerOf (hasArguments isLookup : Bool) (callee : ValueOf Reference)
    (arguments : ArgumentsOf (ValueOf Reference)) :
    CalleeKind → MannerOf Reference (ValueOf Reference)
  | .helper name => .helper (helperReference name) arguments
  | .ambiguous name => .ambiguous (.symbol .context .context name) (helperReference name)
  | .value => if hasArguments then .applied callee arguments else .plain callee isLookup
  | .refused _ => .refused

/-- The name that a call is known by. -/
def Call.shownName (kind : CalleeKind) (call : Call) : String :=
  match kind with
  | .helper name | .ambiguous name | .refused name => name
  | .value => call.callee.spelling

mutual

/-- The value of an expression. -/
def Expr.value (hints : Hints) (scope : Scope) : Expr → ValueOf Reference
  | .lookup l => .chain (l.chain scope)
  | .str value => .literal (.literal value)
  | .num spelling => .constant spelling
  | .bool value => .constant (boolText value)
  | .null => .constant "null"
  | .undefined => .constant "undefined"
  | .sub call => .call (Call.invocation hints scope true call)

/-- The invocation that a call is. -/
def Call.invocation (hints : Hints) (scope : Scope) (isSub : Bool) :
    CallOf Expr → InvocationIn Reference
  | ⟨callee, params, hash, position⟩ =>
    let call : Call := ⟨callee, params, hash, position⟩
    let kind := call.calleeKind hints scope isSub
    ⟨call.shownName kind, position,
      mannerOf call.hasArguments callee.isLookup (callee.value hints scope)
        ⟨paramValues hints scope params, hashValues hints scope hash⟩ kind⟩

/-- The values of positional arguments. -/
def paramValues (hints : Hints) (scope : Scope) : List Expr → List (ValueOf Reference)
  | [] => []
  | param :: params => param.value hints scope :: paramValues hints scope params

/-- The values of named arguments. -/
def hashValues (hints : Hints) (scope : Scope) :
    List (String × Expr) → List (String × ValueOf Reference)
  | [] => []
  | (key, value) :: hash => (key, value.value hints scope) :: hashValues hints scope hash

end

/-! ## 3. Statements -/

/-- The name of a partial. -/
def partialNameOf (hints : Hints) (scope : Scope) : Expr → PartialNameOf Reference
  | .sub call => .computed (Call.invocation hints scope true call)
  | name => .known name.spelling (.symbol .partialTemplate .partials name.spelling)

/-- The line of static content; empty content needs none. -/
def chunkLine? (text : String) : Option (LineOf Reference) :=
  if text.isEmpty then none else some (.chunk (.chunk text))

mutual

/-- The line of a statement. -/
def Statement.line? (hints : Hints) (scope : Scope) : Statement → Option (LineOf Reference)
  | .content text => chunkLine? text
  | .mustache call true => some (.escaped (Call.invocation hints scope false call))
  | .mustache call false => some (.unescaped (Call.invocation hints scope false call))
  | .block call main inverse =>
    some (.block (sectionBody? hints scope main) (sectionBody? hints scope inverse)
      (Call.invocation hints scope false call))
  | .partialTemplate name context hash fallback =>
    some (.partialTemplate (partialNameOf hints scope name)
      (context.map fun e => e.value hints scope) (hashValues hints scope hash)
      (sectionBody? hints scope fallback))

/-- The lines of statements. -/
def linesOf (hints : Hints) (scope : Scope) : List Statement → List (LineOf Reference)
  | [] => []
  | statement :: statements =>
    (statement.line? hints scope).toList ++ linesOf hints scope statements

/-- The body of a section, in which its block parameters are bound. -/
def sectionBody? (hints : Hints) (scope : Scope) :
    Option (ProgramOf Statement) → Option (BodyIn Reference)
  | none => none
  | some ⟨body, params⟩ => some ⟨linesOf hints (params :: scope) body, params⟩

end

/-- The spec tree of a whole template. -/
def Program.spec (hints : Hints) (program : Program) : BodyIn Reference :=
  ⟨linesOf hints [] program.body, program.blockParams⟩

end Stache
