import Stache.Proofs.Spec.Generation

/-!
# The paths of a template

The paths that stand in a template, with the bodies around them, and what its spec tree has for them.

* `Scope.Binds`, `Scope.Free` -- a name is bound by the innermost body that declares it, at its first place
  there, or no body declares it;
* `Scope.slot?_eq_some` -- a name has the slot that binds it;
* `PathSite`, `Program.paths` -- the paths of a template, each with the bodies around it;
* `PathCode`, `BodyOf.pathCodes` -- what a spec tree has for them, in the same order.
-/

namespace Stache

/-! ## 1. Bound names -/

/-- The innermost body that declares the name is the one so many levels up, and this is the first place of the
    name among its block parameters. -/
structure Scope.Binds (scope : Scope) (name : String) (level slot : Nat) : Prop where
  declared : ∃ params, scope[level]? = some params ∧ params[slot]? = some name ∧ name ∉ params.take slot
  innermost : ∀ params ∈ scope.take level, name ∉ params

/-- No body around declares the name. -/
def Scope.Free (scope : Scope) (name : String) : Prop :=
  ∀ params ∈ scope, name ∉ params

theorem idxOf?_eq_some {names : List String} {name : String} {slot : Nat} :
    names.idxOf? name = some slot ↔ names[slot]? = some name ∧ name ∉ names.take slot := by
  induction names generalizing slot with
  | nil => simp
  | cons first names ih =>
    rw [List.idxOf?_cons]
    by_cases hfirst : first = name
    · cases slot with
      | zero => simp [hfirst]
      | succ slot => simp [hfirst]
    · have hname : ¬ name = first := fun e => hfirst e.symm
      cases slot with
      | zero => simp [hfirst]
      | succ slot => simp [hfirst, hname, ih]

/-- The innermost body binds the names that it declares. -/
theorem Scope.binds_zero {params : List String} {outer : Scope} {name : String} {slot : Nat} :
    Scope.Binds (params :: outer) name 0 slot ↔ params.idxOf? name = some slot := by
  rw [idxOf?_eq_some]
  constructor
  · intro h
    obtain ⟨other, hother, hslot⟩ := h.declared
    simp only [List.getElem?_cons_zero, Option.some.injEq] at hother
    rwa [hother]
  · intro hslot
    exact ⟨⟨params, rfl, hslot⟩, by simp⟩

/-- The bodies around it bind the others. -/
theorem Scope.binds_succ {params : List String} {outer : Scope} {name : String} {level slot : Nat} :
    Scope.Binds (params :: outer) name (level + 1) slot ↔ name ∉ params ∧ outer.Binds name level slot := by
  constructor
  · intro h
    have hfree : name ∉ params := h.innermost params (by simp)
    refine ⟨hfree, by simpa using h.declared, ?_⟩
    simpa [hfree] using h.innermost
  · rintro ⟨hfree, h⟩
    refine ⟨by simpa using h.declared, ?_⟩
    simpa [hfree] using h.innermost

/-- **A name has the slot that binds it.** -/
theorem Scope.slot?_eq_some {scope : Scope} {name : String} {level slot : Nat} :
    scope.slot? name = some (level, slot) ↔ scope.Binds name level slot := by
  induction scope generalizing level with
  | nil =>
    constructor
    · intro h
      cases h
    · intro h
      obtain ⟨params, hparams, _⟩ := h.declared
      simp at hparams
  | cons params outer ih =>
    rw [Scope.slot?]
    cases hidx : params.idxOf? name with
    | some own =>
      have hmem : name ∈ params := List.mem_of_getElem? (idxOf?_eq_some.mp hidx).1
      cases level with
      | zero =>
        rw [Scope.binds_zero, hidx]
        simp
      | succ level =>
        rw [Scope.binds_succ]
        simp [hmem]
    | none =>
      have hfree : name ∉ params := List.idxOf?_eq_none_iff.mp hidx
      cases level with
      | zero =>
        rw [Scope.binds_zero, hidx]
        simp
      | succ level =>
        rw [Scope.binds_succ, ← ih]
        simp [hfree, Prod.ext_iff]

/-- A name is bound exactly if some body declares it. -/
theorem Scope.exists_binds {scope : Scope} {name : String} :
    (∃ level slot, scope.Binds name level slot) ↔ ∃ params ∈ scope, name ∈ params := by
  constructor
  · rintro ⟨level, slot, hb⟩
    obtain ⟨params, hparams, hslot, _⟩ := hb.declared
    exact ⟨params, List.mem_of_getElem? hparams, List.mem_of_getElem? hslot⟩
  · rintro ⟨params, hp, hn⟩
    cases hslot : scope.slot? name with
    | some found => exact ⟨found.1, found.2, Scope.slot?_eq_some.mp hslot⟩
    | none => exact absurd hn (Scope.slot?_eq_none.mp hslot params hp)

/-! ## 2. The paths of a template -/

/-- What a path is written for. -/
inductive PathRole where
  /-- Its value. -/
  | value
  /-- It is called. -/
  | callee (isSub : Bool) (call : Call)

/-- A path in a template: the block parameters of the bodies around it, the innermost first, and what it is
    written for. -/
structure PathSite where
  scope : Scope
  lookup : Lookup
  role : PathRole

mutual

/-- The paths in an expression. -/
def Expr.paths (scope : Scope) (role : PathRole) : Expr → List PathSite
  | .lookup l => [⟨scope, l, role⟩]
  | .str _ => []
  | .num _ => []
  | .bool _ => []
  | .null => []
  | .undefined => []
  | .sub call => Call.paths scope true call

/-- The paths in a call. -/
def Call.paths (scope : Scope) (isSub : Bool) : CallOf Expr → List PathSite
  | ⟨callee, params, hash, position⟩ =>
    callee.paths scope (.callee isSub ⟨callee, params, hash, position⟩) ++
      (paramPaths scope params ++ hashPaths scope hash)

/-- The paths in positional arguments. -/
def paramPaths (scope : Scope) : List Expr → List PathSite
  | [] => []
  | param :: params => param.paths scope .value ++ paramPaths scope params

/-- The paths in named arguments. -/
def hashPaths (scope : Scope) : List (String × Expr) → List PathSite
  | [] => []
  | (_, value) :: hash => value.paths scope .value ++ hashPaths scope hash

end

/-- The paths in the name of a partial. A name that is not computed is no path: it is looked up among the
    partials as it is spelled. -/
def namePaths (scope : Scope) : Expr → List PathSite
  | .sub call => Call.paths scope true call
  | _ => []

/-- The paths in the context of a partial. -/
def contextPaths (scope : Scope) : Option Expr → List PathSite
  | none => []
  | some e => e.paths scope .value

/-- The paths in a statement, its sections apart. -/
def Statement.ownPaths (scope : Scope) : Statement → List PathSite
  | .content _ => []
  | .mustache call _ => Call.paths scope false call
  | .block call _ _ => Call.paths scope false call
  | .partialTemplate name context hash _ =>
    namePaths scope name ++ (contextPaths scope context ++ hashPaths scope hash)

mutual

/-- The paths in a statement. The call of a block stands outside its sections, and so do the name, the context
    and the arguments of a partial. -/
def Statement.paths (scope : Scope) : Statement → List PathSite
  | .content text => Statement.ownPaths scope (.content text)
  | .mustache call escaped => Statement.ownPaths scope (.mustache call escaped)
  | .block call main inverse =>
    sectionPaths scope main ++ (sectionPaths scope inverse ++
      Statement.ownPaths scope (.block call main inverse))
  | .partialTemplate name context hash fallback =>
    Statement.ownPaths scope (.partialTemplate name context hash fallback) ++ sectionPaths scope fallback

/-- The paths in statements. -/
def bodyPaths (scope : Scope) : List Statement → List PathSite
  | [] => []
  | statement :: statements => statement.paths scope ++ bodyPaths scope statements

/-- The paths in a section: one more body is around them, whether it declares block parameters or not. -/
def sectionPaths (scope : Scope) : Option (ProgramOf Statement) → List PathSite
  | none => []
  | some ⟨body, params⟩ => bodyPaths (params :: scope) body

end

/-- **The paths of a template**, in the order in which their code is made. -/
def Program.paths (program : Program) : List PathSite :=
  bodyPaths [] program.body

/-! ## 3. What a spec tree has for them -/

/-- What a spec tree has for a path. -/
inductive PathCode where
  /-- A chain of lookups. -/
  | chain (c : ChainOf Reference)
  /-- A helper or a member of the context. -/
  | ambiguous (member helper : Reference)
  /-- A helper. -/
  | helper (h : Reference)

/-- Where the lookups begin. -/
def PathCode.base : PathCode → Base
  | .chain c => c.base
  | .ambiguous _ _ => .context
  | .helper _ => .helpers

/-- What is asked about. -/
def PathCode.references : PathCode → List Reference
  | .chain c => c.links
  | .ambiguous m h => [m, h]
  | .helper h => [h]

mutual

/-- What a value has for paths. -/
def ValueOf.pathCodes : ValueOf Reference → List PathCode
  | .chain chain => [.chain chain]
  | .constant _ => []
  | .literal _ => []
  | .call call => InvocationOf.pathCodes call

/-- What a call has for paths. -/
def InvocationOf.pathCodes : InvocationOf Reference (ValueOf Reference) → List PathCode
  | ⟨_, _, .helper helper ⟨params, hash⟩⟩ =>
    .helper helper :: (paramsPathCodes params ++ hashPathCodes hash)
  | ⟨_, _, .ambiguous member helper⟩ => [.ambiguous member helper]
  | ⟨_, _, .applied value ⟨params, hash⟩⟩ =>
    value.pathCodes ++ (paramsPathCodes params ++ hashPathCodes hash)
  | ⟨_, _, .plain value _⟩ => value.pathCodes
  | ⟨_, _, .refused⟩ => []

/-- What positional arguments have for paths. -/
def paramsPathCodes : List (ValueOf Reference) → List PathCode
  | [] => []
  | value :: values => value.pathCodes ++ paramsPathCodes values

/-- What named arguments have for paths. -/
def hashPathCodes : List (String × ValueOf Reference) → List PathCode
  | [] => []
  | (_, value) :: hash => value.pathCodes ++ hashPathCodes hash

end

/-- What the name of a partial has for paths. -/
def PartialNameOf.pathCodes : PartialNameOf Reference → List PathCode
  | .known _ _ => []
  | .computed call => InvocationOf.pathCodes call

/-- What the context of a partial has for paths. -/
def contextPathCodes : Option (ValueOf Reference) → List PathCode
  | none => []
  | some value => value.pathCodes

/-- What a line has for paths, its sections apart. -/
def LineOf.ownPathCodes : LineOf Reference → List PathCode
  | .chunk _ => []
  | .escaped call => InvocationOf.pathCodes call
  | .unescaped call => InvocationOf.pathCodes call
  | .block _ _ call => InvocationOf.pathCodes call
  | .partialTemplate name context hash _ =>
    name.pathCodes ++ (contextPathCodes context ++ hashPathCodes hash)

mutual

/-- What a line has for paths. -/
def LineOf.pathCodes : LineOf Reference → List PathCode
  | .chunk code => LineOf.ownPathCodes (.chunk code)
  | .escaped call => LineOf.ownPathCodes (.escaped call)
  | .unescaped call => LineOf.ownPathCodes (.unescaped call)
  | .block main inverse call =>
    sectionPathCodes main ++ (sectionPathCodes inverse ++ LineOf.ownPathCodes (.block main inverse call))
  | .partialTemplate name context hash fallback =>
    LineOf.ownPathCodes (.partialTemplate name context hash fallback) ++ sectionPathCodes fallback

/-- What lines have for paths. -/
def linesPathCodes : List (LineOf Reference) → List PathCode
  | [] => []
  | line :: lines => line.pathCodes ++ linesPathCodes lines

/-- What a section has for paths. -/
def sectionPathCodes : Option (BodyOf (LineOf Reference)) → List PathCode
  | none => []
  | some ⟨lines, _⟩ => linesPathCodes lines

end

/-- **What a spec tree has for the paths of its template.** -/
def BodyOf.pathCodes (body : BodyIn Reference) : List PathCode :=
  linesPathCodes body.lines

theorem linesPathCodes_append (lines more : List (LineOf Reference)) :
    linesPathCodes (lines ++ more) = linesPathCodes lines ++ linesPathCodes more := by
  induction lines with
  | nil => rfl
  | cons line lines ih =>
    rw [List.cons_append, linesPathCodes, linesPathCodes, ih, List.append_assoc]

end Stache
