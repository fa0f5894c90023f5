import Stache.Proofs.Text.Scan
import Stache.Spec.OfTemplate

/-!
# Constants of a spec tree

Numbers, truth values and the like are written into generated code as they are. They are plain, because
the numbers of the template are.

* `ValueOf.Plain`, `LineOf.Plain` -- the constants of a spec tree are plain;
* `Expr.Plain`, `Statement.Plain` -- the numbers of a template tree are numerals;
* `plain_linesOf` -- the spec tree of such a template has plain constants.
-/

namespace Stache

open Text (IsFigures IsPlain)

/-! ## 1. Spec trees -/

section Tree

variable {ρ : Type}

mutual

/-- The constants of a value are plain. -/
def ValueOf.Plain : ValueOf ρ → Prop
  | .chain _ => True
  | .constant text => IsPlain text.toList
  | .literal _ => True
  | .call call => InvocationOf.Plain call

def paramsPlain : List (ValueOf ρ) → Prop
  | [] => True
  | value :: values => value.Plain ∧ paramsPlain values

def hashPlain : List (String × ValueOf ρ) → Prop
  | [] => True
  | (_, value) :: hash => value.Plain ∧ hashPlain hash

def InvocationOf.Plain : InvocationOf ρ (ValueOf ρ) → Prop
  | ⟨_, _, .helper _ ⟨params, hash⟩⟩ => paramsPlain params ∧ hashPlain hash
  | ⟨_, _, .ambiguous _ _⟩ => True
  | ⟨_, _, .applied value ⟨params, hash⟩⟩ => value.Plain ∧ paramsPlain params ∧ hashPlain hash
  | ⟨_, _, .plain value _⟩ => value.Plain
  | ⟨_, _, .refused⟩ => True

end

def PartialNameOf.Plain : PartialNameOf ρ → Prop
  | .known _ _ => True
  | .computed call => InvocationOf.Plain call

def contextPlain : Option (ValueOf ρ) → Prop
  | none => True
  | some value => value.Plain

mutual

/-- The constants of a line are plain. -/
def LineOf.Plain : LineOf ρ → Prop
  | .chunk _ => True
  | .escaped call => InvocationOf.Plain call
  | .unescaped call => InvocationOf.Plain call
  | .block main inverse call =>
    sectionPlain main ∧ sectionPlain inverse ∧ InvocationOf.Plain call
  | .partialTemplate name context hash fallback =>
    name.Plain ∧ contextPlain context ∧ hashPlain hash ∧ sectionPlain fallback

def linesPlain : List (LineOf ρ) → Prop
  | [] => True
  | line :: lines => line.Plain ∧ linesPlain lines

def sectionPlain : Option (BodyOf (LineOf ρ)) → Prop
  | none => True
  | some ⟨lines, _⟩ => linesPlain lines

end

theorem linesPlain_append {lines more : List (LineOf ρ)} (h : linesPlain lines) (h' : linesPlain more) :
    linesPlain (lines ++ more) := by
  induction lines with
  | nil => exact h'
  | cons line lines ih => exact ⟨h.1, ih h.2⟩

end Tree

/-! ## 2. Template trees -/

mutual

/-- The numbers of an expression are numerals. -/
def Expr.Plain : Expr → Prop
  | .lookup _ => True
  | .str _ => True
  | .num spelling => IsFigures spelling.toList
  | .bool _ => True
  | .null => True
  | .undefined => True
  | .sub call => Call.Plain call

def Call.Plain : CallOf Expr → Prop
  | ⟨callee, params, hash, _⟩ => callee.Plain ∧ exprsPlain params ∧ fieldsPlain hash

def exprsPlain : List Expr → Prop
  | [] => True
  | param :: params => param.Plain ∧ exprsPlain params

def fieldsPlain : List (String × Expr) → Prop
  | [] => True
  | (_, value) :: hash => value.Plain ∧ fieldsPlain hash

end

mutual

/-- The numbers of a statement are numerals. -/
def Statement.Plain : Statement → Prop
  | .content _ => True
  | .mustache call _ => Call.Plain call
  | .block call main inverse => Call.Plain call ∧ programPlain main ∧ programPlain inverse
  | .partialTemplate name context hash fallback =>
    name.Plain ∧ (∀ e ∈ context, e.Plain) ∧ fieldsPlain hash ∧ programPlain fallback

def statementsPlain : List Statement → Prop
  | [] => True
  | statement :: statements => statement.Plain ∧ statementsPlain statements

def programPlain : Option (ProgramOf Statement) → Prop
  | none => True
  | some ⟨body, _⟩ => statementsPlain body

end

/-! ## 3. From template trees to spec trees -/

variable (hints : Hints)

mutual

theorem plain_value (scope : Scope) : ∀ e : Expr, e.Plain → (e.value hints scope).Plain
  | .lookup _, _ => trivial
  | .str _, _ => trivial
  | .num _, h => h.isPlain
  | .bool true, _ => Text.isPlain_ofList rfl
  | .bool false, _ => Text.isPlain_ofList rfl
  | .null, _ => Text.isPlain_ofList rfl
  | .undefined, _ => Text.isPlain_ofList rfl
  | .sub call, h => plain_invocation scope true call h

theorem plain_invocation (scope : Scope) (isSub : Bool) : ∀ call : CallOf Expr,
    Call.Plain call → InvocationOf.Plain (Call.invocation hints scope isSub call)
  | ⟨callee, params, hash, position⟩, ⟨hc, hp, hh⟩ => by
    have hcallee := plain_value scope callee hc
    have hparams := plain_params scope params hp
    have hhash := plain_hash scope hash hh
    simp only [Call.invocation]
    cases Call.calleeKind hints scope isSub ⟨callee, params, hash, position⟩ with
    | helper name => exact ⟨hparams, hhash⟩
    | ambiguous name => trivial
    | value =>
      simp only [mannerOf]
      split
      · exact ⟨hcallee, hparams, hhash⟩
      · exact hcallee
    | refused name => trivial

theorem plain_params (scope : Scope) : ∀ params : List Expr,
    exprsPlain params → paramsPlain (paramValues hints scope params)
  | [], _ => trivial
  | param :: params, h => ⟨plain_value scope param h.1, plain_params scope params h.2⟩

theorem plain_hash (scope : Scope) : ∀ hash : List (String × Expr),
    fieldsPlain hash → hashPlain (hashValues hints scope hash)
  | [], _ => trivial
  | (_, value) :: hash, h => ⟨plain_value scope value h.1, plain_hash scope hash h.2⟩

end

theorem plain_name (scope : Scope) : ∀ name : Expr, name.Plain → (partialNameOf hints scope name).Plain
  | .sub call, h => plain_invocation hints scope true call h
  | .lookup _, _ => trivial
  | .str _, _ => trivial
  | .num _, _ => trivial
  | .bool _, _ => trivial
  | .null, _ => trivial
  | .undefined, _ => trivial

theorem plain_context (scope : Scope) : ∀ context : Option Expr, (∀ e ∈ context, e.Plain) →
    contextPlain (context.map fun e => e.value hints scope)
  | none, _ => trivial
  | some e, h => plain_value hints scope e (h e rfl)

mutual

theorem plain_line (scope : Scope) : ∀ s : Statement, s.Plain →
    linesPlain (s.line? hints scope).toList
  | .content text, _ => by
    simp only [Statement.line?, chunkLine?]
    split
    · trivial
    · exact ⟨trivial, trivial⟩
  | .mustache call true, h => ⟨plain_invocation hints scope false call h, trivial⟩
  | .mustache call false, h => ⟨plain_invocation hints scope false call h, trivial⟩
  | .block call main inverse, ⟨hc, hm, hi⟩ =>
    ⟨⟨plain_section scope main hm, plain_section scope inverse hi,
      plain_invocation hints scope false call hc⟩, trivial⟩
  | .partialTemplate name context hash fallback, ⟨hn, hc, hh, hf⟩ =>
    ⟨⟨plain_name hints scope name hn, plain_context hints scope context hc,
      plain_hash hints scope hash hh, plain_section scope fallback hf⟩, trivial⟩

/-- **The spec tree of a template whose numbers are numerals** has plain constants. -/
theorem plain_linesOf (scope : Scope) : ∀ body : List Statement, statementsPlain body →
    linesPlain (linesOf hints scope body)
  | [], _ => trivial
  | s :: body, h => linesPlain_append (plain_line scope s h.1) (plain_linesOf scope body h.2)

theorem plain_section (scope : Scope) : ∀ body : Option (ProgramOf Statement), programPlain body →
    sectionPlain (sectionBody? hints scope body)
  | none, _ => trivial
  | some ⟨body, params⟩, h => plain_linesOf (params :: scope) body h

end

end Stache
