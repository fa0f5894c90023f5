import Stache.Job.Settling
import Stache.Proofs.Search.Journal
import Stache.Proofs.Spec.Dialogue
import Stache.Proofs.Symbol.Naming

/-!
# A pass

A pass notes the references that it asks about, and that is all it does to the state of a job: it makes no
search, and the registry stays as it is.

* `Job.references` -- what a pass asks about;
* `compile_spec` -- what it does to the state;
* `compile_result` -- its code is the compacted end of the dialogue between the compiler and the table.
-/

namespace Stache

/-! ## 1. What stages leave alone -/

namespace Progress

/-- The later state differs in its messages and its table at most. -/
structure Quiet (p later : Progress) : Prop where
  registry : later.registry = p.registry
  passes : later.passes = p.passes
  journal : later.journal.Agrees p.journal

namespace Quiet

variable {a b c : Progress}

theorem refl (p : Progress) : Quiet p p := ⟨rfl, rfl, .refl _⟩

theorem trans (h : Quiet a b) (h' : Quiet b c) : Quiet a c :=
  ⟨h'.registry.trans h.registry, h'.passes.trans h.passes, h'.journal.trans h.journal⟩

theorem logIf (p : Progress) (wanted : Bool) (level : Level) (message : String) :
    Quiet p (p.logIf wanted level message) :=
  ⟨rfl, rfl, .logIf p.journal wanted level message⟩

end Quiet

/-- The later state differs in its messages at most. -/
structure Told (p later : Progress) : Prop extends Quiet p later where
  table : later.table = p.table

end Progress

namespace Job

variable (job : Job)

/-- To come to a new stage is worth a message. -/
theorem enter_told (stage : String) (p : Progress) : p.Told (job.enter stage p) :=
  ⟨⟨rfl, rfl, .log p.journal _ _⟩, rfl⟩

/-! ## 2. Compiling -/

/-- A dialogue with a table notes what it asks about. -/
theorem table_run_answer {α : Type} (registry : Registry) (inline : String → Bool) (d : Dialogue α)
    (table : SymbolTable) :
    (d.run (Stache.answer registry inline) table).2 =
      table.noteAll registry (d.asked (Stache.answer registry inline) table) := by
  rw [Dialogue.run_state]
  simp only [SymbolTable.answer_eq, SymbolTable.noteAll]

/-- An answer of a job is the answer of its table, and adds at most a message. -/
theorem answer_spec (reference : Reference) (p : Progress) :
    (job.answer reference p).1 =
        (Stache.answer p.registry job.config.loadsInline reference p.table).1 ∧
      (job.answer reference p).2.table = p.table.note p.registry reference ∧
      p.Quiet (job.answer reference p).2 := by
  unfold answer
  cases referenceMessage? reference with
  | none =>
    dsimp only
    rw [SymbolTable.answer_eq]
    exact ⟨rfl, rfl, rfl, rfl, .refl _⟩
  | some message =>
    dsimp only
    have hq := Progress.Quiet.logIf p job.config.debug .debug message
    rw [show (p.logIf job.config.debug .debug message).registry = p.registry from rfl,
      show (p.logIf job.config.debug .debug message).table = p.table from rfl,
      SymbolTable.answer_eq]
    exact ⟨rfl, rfl, rfl, rfl, hq.journal⟩

/-- **A dialogue with a job** says what it would say to the table alone, notes what it asks about, and
    leaves the rest alone. -/
theorem run_answer {α : Type} (d : Dialogue α) (p : Progress) :
    (d.run job.answer p).1 =
        (d.run (Stache.answer p.registry job.config.loadsInline) p.table).1 ∧
      (d.run job.answer p).2.table = p.table.noteAll p.registry (d.asked job.answer p) ∧
      p.Quiet (d.run job.answer p).2 ∧
      d.asked job.answer p =
        d.asked (Stache.answer p.registry job.config.loadsInline) p.table := by
  have step (reference : Reference) (q : Progress) (t : SymbolTable)
      (h : q.table = t ∧ p.Quiet q) :
      (job.answer reference q).1 =
          (Stache.answer p.registry job.config.loadsInline reference t).1 ∧
        (job.answer reference q).2.table =
          (Stache.answer p.registry job.config.loadsInline reference t).2 ∧
        p.Quiet (job.answer reference q).2 := by
    obtain ⟨rfl, hq⟩ := h
    obtain ⟨h₁, h₂, h₃⟩ := job.answer_spec reference q
    rw [h₁, h₂, hq.registry, SymbolTable.answer_eq]
    exact ⟨rfl, rfl, hq.trans h₃⟩
  obtain ⟨h₁, ⟨h₂, h₃⟩, h₄⟩ := Dialogue.run_related
    (R := fun (q : Progress) (t : SymbolTable) => q.table = t ∧ p.Quiet q) step d
    ⟨rfl, .refl p⟩
  refine ⟨h₁, ?_, h₃, h₄⟩
  rw [h₂, table_run_answer, h₄]

/-- The dialogue of a pass. -/
def dialogue (source : String) (p : Progress) : Dialogue String :=
  job.compiler p.passes ⟨job.config.knownHelpersOnly, p.registry.known⟩ source

/-- What a pass asks about; nothing if the template is empty. -/
def references (source : String) (p : Progress) : List Reference :=
  if source = "" then []
  else (job.dialogue source p).asked (Stache.answer p.registry job.config.loadsInline) p.table

/-- **A pass** notes what it asks about and makes no search. -/
theorem compile_spec (source : String) (p : Progress) :
    (job.compile source p).2.table = p.table.noteAll p.registry (job.references source p) ∧
      p.Quiet (job.compile source p).2 := by
  unfold compile references
  by_cases hs : source = ""
  · rw [if_pos hs, if_pos hs]
    exact ⟨rfl, .refl p⟩
  · rw [if_neg hs, if_neg hs]
    obtain ⟨_, ht, hq, ha⟩ := job.run_answer (job.dialogue source p) p
    rw [ha] at ht
    dsimp only [dialogue] at ht hq ⊢
    split
    · rename_i e
      rw [e] at ht hq
      exact ⟨ht, hq⟩
    · rename_i e
      rw [e] at ht hq
      exact ⟨ht, hq⟩

/-- The code of a pass is the compacted end of its dialogue. -/
theorem compile_run {source : String} (hs : source ≠ "") (p : Progress) :
    (job.compile source p).1 =
      match ((job.dialogue source p).run job.answer p).1 with
      | .ok code => .ok (Text.compact code)
      | .error error => .error (.templateSyntax job.name error) := by
  unfold compile
  rw [if_neg hs]
  dsimp only [dialogue]
  split
  · rename_i e
    rw [e]
  · rename_i e
    rw [e]

/-- The table alone gives the same answers. -/
theorem compile_result {source : String} (hs : source ≠ "") (p : Progress) :
    (job.compile source p).1 =
      match ((job.dialogue source p).run (Stache.answer p.registry job.config.loadsInline)
        p.table).1 with
      | .ok code => .ok (Text.compact code)
      | .error error => .error (.templateSyntax job.name error) := by
  rw [← (job.run_answer (job.dialogue source p) p).1]
  exact job.compile_run hs p

end Job

end Stache
