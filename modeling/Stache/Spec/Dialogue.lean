import Stache.Spec.OfTemplate
import Stache.Template.Fault

/-!
# Dialogues

A compilation asks about every reference that it writes, one after the other, and each answer is either
code to put there or nothing. A dialogue is such a computation as a value: it ends with a result or an
error, or asks and goes on with the answer. Nothing that a dialogue does depends on who answers, only on
the answers.

`BodyOf.ask` asks about the references of a spec tree, in the order in which its parts are needed: the
sections of a block before its call, the looked up member before the helper, the helper before its
arguments. It stops at the first call of a refused helper.
-/

namespace Stache

/-- A computation that asks about references. -/
inductive Dialogue (α : Type) where
  /-- The result. -/
  | done (result : α)
  /-- The template is rejected. -/
  | failed (error : SyntaxError)
  /-- A question, and how the computation goes on with the answer. -/
  | ask (reference : Reference) (resume : Option String → Dialogue α)

namespace Dialogue

/-- Goes on with the result of a dialogue. -/
def bind {α β : Type} (d : Dialogue α) (f : α → Dialogue β) : Dialogue β :=
  match d with
  | .done result => f result
  | .failed error => .failed error
  | .ask reference resume => .ask reference fun answer => (resume answer).bind f

instance : Monad Dialogue where
  pure := .done
  bind := bind

/-- Carries a dialogue out: `policy` answers, and may change a state. -/
def run {σ α : Type} (policy : Reference → σ → Option String × σ) (d : Dialogue α) (state : σ) :
    Except SyntaxError α × σ :=
  match d with
  | .done result => (.ok result, state)
  | .failed error => (.error error, state)
  | .ask reference resume =>
    let (answer, state) := policy reference state
    (resume answer).run policy state

/-- A computation that may be rejected, but asks nothing. -/
def ofExcept {α : Type} : Except SyntaxError α → Dialogue α
  | .ok result => .done result
  | .error error => .failed error

/-- Asks about one reference: the code to write for it. -/
def code (reference : Reference) : Dialogue String :=
  .ask reference fun answer => .done (answer.getD reference.default)

end Dialogue

/-! ## 1. Values and calls -/

/-- The codes of some references. -/
def askAll : List Reference → Dialogue (List String)
  | [] => pure []
  | reference :: references => do
    let code ← Dialogue.code reference
    return code :: (← askAll references)

/-- The chain with its codes. -/
def ChainOf.ask (chain : ChainOf Reference) : Dialogue (ChainOf String) := do
  return ⟨chain.base, ← askAll chain.links⟩

mutual

/-- The value with its codes. -/
def ValueOf.ask : ValueOf Reference → Dialogue (ValueOf String)
  | .chain chain => do return .chain (← chain.ask)
  | .constant text => return .constant text
  | .literal reference => do return .literal (← Dialogue.code reference)
  | .call call => do return .call (← InvocationOf.ask call)

/-- The values with their codes. -/
def askParams : List (ValueOf Reference) → Dialogue (List (ValueOf String))
  | [] => return []
  | value :: values => do
    let first ← value.ask
    return first :: (← askParams values)

/-- The named values with their codes. -/
def askHash : List (String × ValueOf Reference) → Dialogue (List (String × ValueOf String))
  | [] => return []
  | (key, value) :: hash => do
    let first ← value.ask
    return (key, first) :: (← askHash hash)

/-- The call with its codes. -/
def InvocationOf.ask :
    InvocationOf Reference (ValueOf Reference) → Dialogue (InvocationOf String (ValueOf String))
  | ⟨name, position, .helper helper ⟨params, hash⟩⟩ => do
    let helper ← Dialogue.code helper
    let params ← askParams params
    return ⟨name, position, .helper helper ⟨params, ← askHash hash⟩⟩
  | ⟨name, position, .ambiguous member helper⟩ => do
    let member ← Dialogue.code member
    return ⟨name, position, .ambiguous member (← Dialogue.code helper)⟩
  | ⟨name, position, .applied value ⟨params, hash⟩⟩ => do
    let value ← value.ask
    let params ← askParams params
    return ⟨name, position, .applied value ⟨params, ← askHash hash⟩⟩
  | ⟨name, position, .plain value lookedUp⟩ => do
    return ⟨name, position, .plain (← value.ask) lookedUp⟩
  | ⟨name, position, .refused⟩ => .failed ⟨.unknownHelper name, position⟩

end

/-! ## 2. Lines and bodies -/

/-- The name of a partial with its codes. -/
def PartialNameOf.ask : PartialNameOf Reference → Dialogue (PartialNameOf String)
  | .known name lookup => do return .known name (← Dialogue.code lookup)
  | .computed call => do return .computed (← InvocationOf.ask call)

/-- The context of a partial with its codes. -/
def askContext? : Option (ValueOf Reference) → Dialogue (Option (ValueOf String))
  | none => return none
  | some value => do return some (← value.ask)

mutual

/-- The line with its codes. -/
def LineOf.ask : LineOf Reference → Dialogue (LineOf String)
  | .chunk reference => do return .chunk (← Dialogue.code reference)
  | .escaped call => do return .escaped (← InvocationOf.ask call)
  | .unescaped call => do return .unescaped (← InvocationOf.ask call)
  | .block main inverse call => do
    let main ← askBody? main
    let inverse ← askBody? inverse
    return .block main inverse (← InvocationOf.ask call)
  | .partialTemplate name context hash fallback => do
    let name ← name.ask
    let context ← askContext? context
    let hash ← askHash hash
    return .partialTemplate name context hash (← askBody? fallback)

/-- The lines with their codes. -/
def askLines : List (LineOf Reference) → Dialogue (List (LineOf String))
  | [] => return []
  | line :: lines => do
    let first ← line.ask
    return first :: (← askLines lines)

/-- The body of a section with its codes. -/
def askBody? : Option (BodyOf (LineOf Reference)) → Dialogue (Option (BodyOf (LineOf String)))
  | none => return none
  | some ⟨lines, params⟩ => do return some ⟨← askLines lines, params⟩

end

/-- The body with its codes. -/
def BodyOf.ask (body : BodyIn Reference) : Dialogue (BodyIn String) := do
  return ⟨← askLines body.lines, body.params⟩

end Stache
