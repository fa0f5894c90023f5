import Stache.Proofs.Symbol.Naming

/-!
# What happens to a table

A table is written by its own operations and by the answers to references, in any order; the answers may come
from registries that know more and more. Whatever happens, what is known about a symbol only grows, and each
step keeps to the kinds that it is about.

* `TableStep`, `SymbolTable.run` -- what may happen, one step, and any number of them;
* `le_apply`, `records_apply` -- **one step**: the table grows, and all records of other kinds stay;
* `run_advances` -- **any number of steps**.
-/

namespace Stache

/-! ## 1. Steps -/

/-- One of the ways to write a table. -/
inductive TableStep where
  /-- A name is recorded. -/
  | register (kind : SymbolKind) (name : String)
  /-- A name was found. -/
  | markResolved (kind : SymbolKind) (name : String) (path : Path)
  /-- A name was searched in vain. -/
  | markUnresolved (kind : SymbolKind) (name : String)
  /-- An ambiguous name turned out to be a helper. -/
  | promote (name : String) (path : Path)
  /-- A reference is answered with what a registry knows; `inline` tells which texts are loaded. -/
  | answer (registry : Registry) (inline : String → Bool) (reference : Reference)

namespace TableStep

/-- The table after a step. -/
def apply (table : SymbolTable) : TableStep → SymbolTable
  | .register kind name => table.register kind name
  | .markResolved kind name path => table.markResolved kind name path
  | .markUnresolved kind name => table.markUnresolved kind name
  | .promote name path => table.promote name path
  | .answer registry inline reference => (Stache.answer registry inline reference table).2

/-- The kinds of symbols that a step is about. A member of a context is about ambiguous names; data and texts
    are about none. -/
def kinds : TableStep → List SymbolKind
  | .register kind _ => [kind]
  | .markResolved kind _ _ => [kind]
  | .markUnresolved kind _ => [kind]
  | .promote _ _ => [.ambiguous, .helper]
  | .answer _ _ (.symbol .partialTemplate _ _) => [.partialTemplate]
  | .answer _ _ (.symbol .helper _ _) => [.helper]
  | .answer _ _ (.symbol .context _ _) => [.ambiguous]
  | .answer _ _ _ => []

end TableStep

namespace SymbolTable

variable (table : SymbolTable)

/-- The table after any number of steps. -/
def run (table : SymbolTable) (steps : List TableStep) : SymbolTable :=
  steps.foldl TableStep.apply table

theorem run_append (before after : List TableStep) :
    table.run (before ++ after) = (table.run before).run after :=
  List.foldl_append

/-! ## 2. One step -/

theorem le_note (registry : Registry) (reference : Reference) : table ≤ table.note registry reference :=
  table.le_noteAll registry [reference]

/-- **A table grows with every step.** -/
theorem le_apply (step : TableStep) : table ≤ TableStep.apply table step := by
  cases step with
  | register kind name => exact table.le_register kind name
  | markResolved kind name path => exact table.le_markResolved kind name path
  | markUnresolved kind name => exact table.le_markUnresolved kind name
  | promote name path => exact table.le_promote name path
  | answer registry inline reference =>
    show table ≤ (answer registry inline reference table).2
    rw [answer_eq]
    exact table.le_note registry reference

theorem records_setRecords {kind other : SymbolKind} (h : other ≠ kind) (records : Records) :
    (table.setRecords kind records).records other = table.records other := by
  cases kind <;> cases other <;> first | rfl | exact absurd rfl h

/-- **The records of other kinds stay.** -/
theorem records_apply {step : TableStep} {kind : SymbolKind} (h : kind ∉ step.kinds) :
    (TableStep.apply table step).records kind = table.records kind := by
  have hregister {of : SymbolKind} {name : String} (h : kind ≠ of) :
      (table.register of name).records kind = table.records kind := table.records_setRecords h _
  have hresolved (table : SymbolTable) {of : SymbolKind} {name : String} {path : Path} (h : kind ≠ of) :
      (table.markResolved of name path).records kind = table.records kind := table.records_setRecords h _
  cases step with
  | register of name => exact hregister (List.ne_of_not_mem_cons h)
  | markResolved of name path => exact hresolved _ (List.ne_of_not_mem_cons h)
  | markUnresolved of name => exact table.records_setRecords (List.ne_of_not_mem_cons h) _
  | promote name path =>
    have hhelper : kind ≠ .helper := List.ne_of_not_mem_cons (List.not_mem_of_not_mem_cons h)
    exact (hresolved _ hhelper).trans (hresolved _ (List.ne_of_not_mem_cons h))
  | answer registry inline reference =>
    show (answer registry inline reference table).2.records kind = _
    rw [answer_eq]
    dsimp only
    rcases reference with ⟨_ | _ | _ | _, base, name⟩ | value | text
    · rw [note_partial]
      split
      · rfl
      · exact hregister (List.ne_of_not_mem_cons h)
    · rw [note_helper]
      split
      · exact hresolved _ (List.ne_of_not_mem_cons h)
      · exact hregister (List.ne_of_not_mem_cons h)
    · show (if name ∈ registry.known then table.register .ambiguous name else table).records kind = _
      split
      · exact hregister (List.ne_of_not_mem_cons h)
      · rfl
    all_goals rfl

/-! ## 3. Any number of steps -/

theorem le_run (steps : List TableStep) : table ≤ table.run steps :=
  le_foldl id le_apply steps table

theorem records_run {steps : List TableStep} {kind : SymbolKind} (h : ∀ step ∈ steps, kind ∉ step.kinds) :
    (table.run steps).records kind = table.records kind := by
  induction steps generalizing table with
  | nil => rfl
  | cons step steps ih =>
    obtain ⟨hstep, hsteps⟩ := List.forall_mem_cons.mp h
    exact (ih _ hsteps).trans (table.records_apply hstep)

/-- **Whatever happens, what is known only grows.** From any moment to any later one every symbol advances
    along absent, pending, unresolved and resolved: a path stays, and so does whatever is recorded. At every
    moment exactly the pending names wait to be searched, in strict order. And the records of a kind, such as
    those of the partials, stay as they are while no step is about this kind. -/
theorem run_advances (before after : List TableStep) :
    (∀ kind name, Advances ((table.run before).get? kind name) ((table.run (before ++ after)).get? kind name)) ∧
    (∀ kind name, ((table.run before).get? kind name).isSome = true →
      ((table.run (before ++ after)).get? kind name).isSome = true) ∧
    (∀ kind, (∀ name, name ∈ (table.run before).pending kind ↔
        (table.run before).get? kind name = some .pending) ∧
      ((table.run before).pending kind).Pairwise (· < ·) ∧ ((table.run before).pending kind).Nodup) ∧
    (∀ kind, (∀ step ∈ after, kind ∉ step.kinds) →
      (table.run (before ++ after)).records kind = (table.run before).records kind) := by
  rw [run_append]
  have hgrows := (table.run before).le_run after
  refine ⟨hgrows, fun kind name => isSome_of_le hgrows, fun kind => ?_, fun kind => ?_⟩
  · exact ⟨fun name => mem_pending, pending_ordered _ kind, pending_nodup _ kind⟩
  · exact (table.run before).records_run

end SymbolTable

end Stache
