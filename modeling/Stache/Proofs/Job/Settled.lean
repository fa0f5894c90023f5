import Stache.Proofs.Job.Missing

/-!
# What a settled template is

The pass of a round answers from a table that it changes itself, and the searches change it further. If
the round finds nothing, none of this shows: the code is the code that one reads off the table in the end.

* `run_codeOf` -- a dialogue with a growing table says what it says to the table it leaves;
* `run_noted` -- a dialogue with a table that knows all references leaves it as it is;
* `settled_code` -- a settled template is one compilation against its table, and another pass changes
  nothing.
-/

namespace Stache

namespace SymbolTable

/-! ## 1. Answers off a table that does not change -/

/-- The answers of a table that stays as it is. -/
def tell (table : SymbolTable) (inline : String → Bool) (reference : Reference) (state : Unit) :
    Option String × Unit :=
  (table.codeOf inline reference, state)

variable {α : Type} (registry : Registry) (inline : String → Bool)

/-- **A dialogue with a growing table says what it says to the table it leaves.** -/
theorem run_codeOf (d : Dialogue α) {table left : SymbolTable}
    (hl : left = table.noteAll registry (d.asked (answer registry inline) table)) :
    d.run (left.tell inline) () = ((d.run (answer registry inline) table).1, ()) ∧
      d.asked (left.tell inline) () = d.asked (answer registry inline) table := by
  induction d generalizing table with
  | done result => exact ⟨rfl, rfl⟩
  | failed error => exact ⟨rfl, rfl⟩
  | ask reference resume ih =>
    have ha := answer_eq registry table inline reference
    have ht : left.tell inline reference () =
        ((table.note registry reference).codeOf inline reference, ()) := by
      rw [hl, Dialogue.asked]
      refine Prod.ext ?_ rfl
      rw [ha]
      exact codeOf_noteAll ..
    rw [Dialogue.asked, ha] at hl
    obtain ⟨hr, hs⟩ := ih ((table.note registry reference).codeOf inline reference) hl
    simp only [Dialogue.run, Dialogue.asked, ht, ha, hr, hs, and_self]

/-- **A dialogue with a table that knows all references** leaves the table as it is. -/
theorem run_noted (d : Dialogue α) {table : SymbolTable}
    (hn : ∀ reference ∈ d.asked (table.tell inline) (), table.note registry reference = table) :
    d.run (answer registry inline) table = ((d.run (table.tell inline) ()).1, table) := by
  induction d with
  | done result => rfl
  | failed error => rfl
  | ask reference resume ih =>
    rw [Dialogue.asked, List.forall_mem_cons] at hn
    rw [Dialogue.run, Dialogue.run, answer_eq, hn.1]
    exact ih _ hn.2

end SymbolTable

namespace Job

/-! ## 2. The last round -/

/-- **A round that finds nothing** leaves a state that answers its dialogue as it was answered: off the
    table alone, and by another pass, which does not change the table. -/
theorem dialogue_of_nothing {job : Job} {source : String} {q later : Progress} {code : String}
    (hs : source ≠ "") (h : job.round source q = (.ok (code, false), later)) :
    ∃ raw, code = Text.compact raw ∧
      (job.dialogue source (job.begun q)).run (later.table.tell job.config.loadsInline) () =
        (.ok raw, ()) ∧
      (job.dialogue source (job.begun q)).run
        (Stache.answer later.registry job.config.loadsInline) later.table =
          (.ok raw, later.table) := by
  obtain ⟨hc, hreg, hle, hpath⟩ := round_of_nothing h rfl
  have ht := (job.compiled_spec source q).1
  rw [compile_result job hs] at hc
  rw [references, if_neg hs] at ht
  generalize job.dialogue source (job.begun q) = d at hc ht ⊢
  -- the pass said what its table tells, and that is what the last table tells
  have htell : (job.compiled source q).table.tell job.config.loadsInline =
      later.table.tell job.config.loadsInline := by
    unfold SymbolTable.tell
    rw [SymbolTable.codeOf_congr_path hpath]
  obtain ⟨hrun, hasked⟩ := SymbolTable.run_codeOf q.registry job.config.loadsInline d ht
  rw [htell] at hrun hasked
  cases hr : (d.run (Stache.answer q.registry job.config.loadsInline) q.table).1 with
  | error error =>
    rw [show (d.run (Stache.answer (job.begun q).registry job.config.loadsInline)
      (job.begun q).table).1 = _ from hr] at hc
    cases hc
  | ok raw =>
    rw [show (d.run (Stache.answer (job.begun q).registry job.config.loadsInline)
      (job.begun q).table).1 = _ from hr] at hc
    cases hc
    rw [hr] at hrun
    refine ⟨raw, rfl, hrun, ?_⟩
    rw [hreg, SymbolTable.run_noted, hrun]
    intro reference hm
    rw [hasked] at hm
    exact SymbolTable.note_eq_self_of_le hm (le_of_eq_of_le ht.symm hle)

/-! ## 3. A settled template -/

variable {plan : SearchPlan} {name : String} {suggest : String → List String}

/-- What the compiler is told and answered in the last pass of a settled template. -/
theorem dialogue_of_settle {source : String} {registry : Registry} {journal : Journal}
    {settled : Settled} {p : Progress} (hs : source ≠ "")
    (h : (ofTemplate plan name suggest).settle source registry journal = (.ok settled, p)) :
    p.table = settled.table ∧
    ∃ raw, settled.code = Text.compact raw ∧
      (compilation ⟨plan.config.knownHelpersOnly, p.registry.known⟩ source).run
        (settled.table.tell plan.config.loadsInline) () = (.ok raw, ()) ∧
      (compilation ⟨plan.config.knownHelpersOnly, p.registry.known⟩ source).run
        (Stache.answer p.registry plan.config.loadsInline) p.table = (.ok raw, p.table) := by
  obtain ⟨q, _, hq⟩ := rounds_last (rounds_of_settle h)
  cases hq with
  | @settled code last round =>
    obtain ⟨raw, rfl, hrun, hagain⟩ := dialogue_of_nothing hs round
    have hreg : last.registry = q.registry := (round_of_nothing round rfl).2.1
    -- the compiler is told the same in every pass
    have hd : (ofTemplate plan name suggest).dialogue source ((ofTemplate plan name suggest).begun q) =
        compilation ⟨plan.config.knownHelpersOnly, last.registry.known⟩ source := by
      rw [hreg]
      rfl
    rw [hd] at hrun hagain
    exact ⟨rfl, raw, rfl, hrun, hagain⟩

/-- **A settled template is one compilation against its table**: with the helpers that are known in the
    end, and with the code that the table has for each name. Another pass changes nothing. -/
theorem settled_code {source : String} {registry : Registry} {journal : Journal} {settled : Settled}
    {p : Progress} (hs : source ≠ "")
    (h : (ofTemplate plan name suggest).settle source registry journal = (.ok settled, p)) :
    (∃ code, (compilation ⟨plan.config.knownHelpersOnly, p.registry.known⟩ source).run
        (settled.table.tell plan.config.loadsInline) () = (.ok code, ()) ∧
      settled.code = Text.compact code) ∧
    p.table = settled.table ∧
    ∃ later, (ofTemplate plan name suggest).compile source p = (.ok settled.code, later) ∧
      later.table = p.table ∧ later.registry = p.registry := by
  obtain ⟨ht, raw, hcode, hrun, hagain⟩ := dialogue_of_settle hs h
  have hagain' : ((ofTemplate plan name suggest).dialogue source p).run
      (Stache.answer p.registry (ofTemplate plan name suggest).config.loadsInline) p.table =
        (.ok raw, p.table) := hagain
  refine ⟨⟨raw, hrun, hcode⟩, ht, _, Prod.ext ?_ rfl, ?_, (compile_spec _ source _).2.registry⟩
  · rw [compile_result _ hs, hagain', hcode]
  · rw [(compile_spec _ source _).1, references, if_neg hs, ← table_run_answer, hagain']

/-- A plan without options, for a template in the working directory. -/
abbrev plain (resolver : ModuleResolver) : SearchPlan where
  resolver
  config := {}
  templateDir := ⟨"."⟩

/-- A plan with which everything is found where it is looked for first. -/
def everywhere : SearchPlan where
  resolver _ base request := .ok (base.join ⟨request⟩)
  config := {}
  templateDir := ⟨"."⟩

section Found

variable {resolver : ModuleResolver} (h : ∀ made base request, ∃ path, resolver made base request = .ok path)

include h

theorem finds_found (n : String) (made : Nat) :
    SearchPlan.Finds (plain resolver) .partialTemplate n made := by
  obtain ⟨path, hpath⟩ := h (made + 0) ⟨"."⟩ _
  exact ⟨0, _, 0, ⟨"."⟩, path, rfl, rfl, hpath, rfl⟩

/-- The template that names one partial settles if every probe finds a file. -/
theorem settles_found : ∃ settled p, (ofTemplate (plain resolver) "t" fun _ => []).settle
    "\x7b\x7b>b\x7d\x7d" {} [] = (.ok settled, p) := by
  have hs : "\x7b\x7b>b\x7d\x7d" ≠ "" := by decide
  refine settles_of_found "t" (fun _ => []) hs ?_ (finds_found h) []
  rw [passOutline, if_neg hs, outline_namesPartial]

/-- So does the template that calls a helper with a member of the context. -/
theorem settles_callsWith (registry : Registry) : ∃ settled p,
    (ofTemplate (plain resolver) "t" fun _ => []).settle "\x7b\x7bm n\x7d\x7d" registry [] =
      (.ok settled, p) := by
  have hs : "\x7b\x7bm n\x7d\x7d" ≠ "" := by decide
  refine settles_of_found "t" (fun _ => []) hs ?_ (finds_found h) []
  rw [passOutline, if_neg hs, outline_callsWith rfl]

/-- And so does the template of every kind. -/
theorem settles_everyKind (registry : Registry) : ∃ settled p,
    (ofTemplate (plain resolver) "t" fun _ => []).settle everyKind registry [] = (.ok settled, p) := by
  have hs : everyKind ≠ "" := by decide
  refine settles_of_found "t" (fun _ => []) hs ?_ (finds_found h) []
  rw [passOutline, if_neg hs, outline_everyKind rfl]

end Found

theorem settles_everywhere : ∃ settled p, (ofTemplate everywhere "t" fun _ => []).settle
    "\x7b\x7b>b\x7d\x7d" {} [] = (.ok settled, p) :=
  settles_found fun _ base request => ⟨base.join ⟨request⟩, rfl⟩

/-- The template that names one partial, where everything is found. -/
theorem settled_code_everywhere :
    ∃ settled p, "\x7b\x7b>b\x7d\x7d" ≠ "" ∧
      (ofTemplate everywhere "t" fun _ => []).settle "\x7b\x7b>b\x7d\x7d" {} [] =
        (.ok settled, p) ∧
      (∃ code, (compilation ⟨false, p.registry.known⟩ "\x7b\x7b>b\x7d\x7d").run
          (settled.table.tell fun _ => false) () = (.ok code, ()) ∧
        settled.code = Text.compact code) ∧
      p.table = settled.table ∧
      ∃ later, (ofTemplate everywhere "t" fun _ => []).compile "\x7b\x7b>b\x7d\x7d" p =
          (.ok settled.code, later) ∧
        later.table = p.table ∧ later.registry = p.registry := by
  have hs : "\x7b\x7b>b\x7d\x7d" ≠ "" := by decide
  obtain ⟨settled, p, h⟩ := settles_everywhere
  exact ⟨settled, p, hs, h, settled_code hs h⟩

end Job

end Stache
