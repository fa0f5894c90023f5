import Stache.Proofs.Job.Run
import Stache.Proofs.Spec.KnownHelpers

/-!
# The rounds of a template

Every pass of a template asks along the outline of the template, which depends on the known helpers only.
So the first round meets all partials and all helpers of the template; what is left to the second are
members of the context that turned out to have the name of a helper, and nobody has to look for them.

* `entries_ofTemplate`, `compile_ofTemplate` -- a pass depends on the known helpers only;
* `round_of_known` -- a round with the helpers known that the round before knew finds nothing;
* `round_of_grown` -- a round with more known helpers makes no search;
* `rounds_ofTemplate` -- if the first round of a template ends with code, so does the run, two rounds later
  at most and without any search.
-/

namespace Stache

namespace Job

/-- The job that compiles a template. -/
def ofTemplate (plan : SearchPlan) (name : String) (suggest : String → List String) : Job :=
  ⟨templateCompiler, plan, name, suggest⟩

variable {plan : SearchPlan} {name : String} {suggest : String → List String} {source : String}
  {p later : Progress}

/-! ## 1. The passes of a template -/

/-- What a pass is told about helpers. -/
def hintsIn (plan : SearchPlan) (p : Progress) : Hints :=
  ⟨plan.config.knownHelpersOnly, p.registry.known⟩

/-- The outline of a pass. -/
def passOutline (hints : Hints) (source : String) : Outline :=
  if source = "" then .nothing else compilationOutline hints source

/-- A pass whose dialogue follows an outline ends as the outline does. -/
theorem compile_of_asks {job : Job} {o : Outline} (hs : source ≠ "")
    (ha : Dialogue.Asks (job.dialogue source p) o) :
    match o.fault with
    | none => ∃ code, (job.compile source p).1 = .ok code
    | some error => (job.compile source p).1 = .error (.templateSyntax job.name error) := by
  have h := ha.run_eq (Stache.answer p.registry job.config.loadsInline) p.table
  rw [compile_result job hs]
  cases hf : o.fault with
  | none =>
    rw [hf] at h
    obtain ⟨raw, hr⟩ := h
    exact ⟨Text.compact raw, by rw [hr]⟩
  | some error =>
    rw [hf] at h
    dsimp only at h ⊢
    rw [h]

section OfTemplate

variable (plan : SearchPlan) (name : String) (suggest : String → List String) (source : String)
  (p : Progress)

/-- A pass follows the outline of the template. -/
theorem asks_dialogue :
    Dialogue.Asks
      ((ofTemplate plan name suggest).dialogue source ((ofTemplate plan name suggest).begun p))
      (compilationOutline (hintsIn plan p) source) :=
  asks_compilation _ source

/-- **What a round of a template asks about depends on the known helpers only.** -/
theorem entries_ofTemplate :
    (ofTemplate plan name suggest).entries source p =
      (passOutline (hintsIn plan p) source).references.filterMap
        (Reference.symbol? p.registry) := by
  unfold entries references passOutline
  by_cases hs : source = ""
  · rw [if_pos hs, if_pos hs]
    rfl
  · rw [if_neg hs, if_neg hs, (asks_dialogue plan name suggest source p).asked_eq]

/-- **Whether a pass of a template ends with code depends on the known helpers only.** -/
theorem compile_ofTemplate :
    match (passOutline (hintsIn plan p) source).fault with
    | none => ∃ code, ((ofTemplate plan name suggest).compile source
        ((ofTemplate plan name suggest).begun p)).1 = .ok code
    | some error => ((ofTemplate plan name suggest).compile source
        ((ofTemplate plan name suggest).begun p)).1 = .error (.templateSyntax name error) := by
  by_cases hs : source = ""
  · rw [passOutline, if_pos hs]
    exact ⟨"", by rw [compile, if_pos hs]⟩
  · rw [passOutline, if_neg hs]
    exact compile_of_asks hs (asks_dialogue plan name suggest source p)

end OfTemplate

theorem fault_of_compile {code : String}
    (hc : ((ofTemplate plan name suggest).compile source
      ((ofTemplate plan name suggest).begun p)).1 = .ok code) :
    (passOutline (hintsIn plan p) source).fault = none := by
  have h := compile_ofTemplate plan name suggest source p
  cases hf : (passOutline (hintsIn plan p) source).fault with
  | none => rfl
  | some error =>
    rw [hf] at h
    exact absurd (hc.symm.trans h) nofun

theorem compile_of_fault (name : String) (suggest : String → List String)
    (hf : (passOutline (hintsIn plan p) source).fault = none) :
    ∃ code, ((ofTemplate plan name suggest).compile source
      ((ofTemplate plan name suggest).begun p)).1 = .ok code := by
  have h := compile_ofTemplate plan name suggest source p
  rw [hf] at h
  exact h

/-! ## 2. Passes that ask about nothing new -/

/-- What is pending after a pass is named by a reference of the outline, and nothing was known of it. -/
theorem asked_of_pending (hp : ∀ kind, p.table.pending kind = []) {kind : SymbolKind} {n : String}
    (hm : n ∈ ((ofTemplate plan name suggest).compiled source p).table.pending kind) :
    p.table.get? kind n = none ∧ ∃ reference ∈ (passOutline (hintsIn plan p) source).references,
      reference.symbol? p.registry = some (kind, n) := by
  obtain ⟨ha, hn⟩ := pending_compiled hp hm
  rw [entries_ofTemplate] at ha
  exact ⟨hn, List.mem_filterMap.mp ha⟩

/-- What the outline names is asked about. -/
theorem entry_of_asked (name : String) (suggest : String → List String) {reference : Reference}
    (hr : reference ∈ (passOutline (hintsIn plan p) source).references) {kind : SymbolKind}
    {n : String} (he : reference.symbol? p.registry = some (kind, n)) :
    (kind, n) ∈ (ofTemplate plan name suggest).entries source p := by
  rw [entries_ofTemplate]
  exact List.mem_filterMap.mpr ⟨reference, hr, he⟩

/-- Everything that a round asks about is recorded in the end. -/
theorem recorded_round {job : Job} {result : Except LoadError (String × Bool)}
    (h : job.round source p = (result, later)) {kind : SymbolKind} {n : String}
    (he : (kind, n) ∈ job.entries source p) : later.table.get? kind n ≠ none := by
  have hle := job.compiled_le_round source p
  rw [h] at hle
  have hc : ((job.compiled source p).table.get? kind n).isSome = true := by
    rw [get?_compiled, if_pos he]
    rfl
  exact Option.isSome_iff_ne_none.mp (SymbolTable.isSome_of_le hle hc)

/-- **A round with the helpers known that the round before knew finds nothing.** -/
theorem round_of_known {code : String} {anything : Bool} {q : Progress}
    (h : (ofTemplate plan name suggest).round source p = (.ok (code, anything), later))
    (hk : later.registry.known = p.registry.known) (hq : later.Told q) :
    ∃ code last, (ofTemplate plan name suggest).round source q = (.ok (code, false), last) ∧
      last.journal.Agrees later.journal := by
  have hkq : q.registry.known = p.registry.known := by rw [hq.registry, hk]
  have hh : hintsIn plan q = hintsIn plan p := by rw [hintsIn, hkq, hintsIn]
  have hrest : ∀ kind, q.table.pending kind = [] := by
    rw [hq.table]
    exact pending_of_coded h
  -- the pass asks what the pass before asked, and everything that was asked is recorded
  have hp (kind : SymbolKind) :
      ((ofTemplate plan name suggest).compiled source q).table.pending kind = [] := by
    refine List.eq_nil_iff_forall_not_mem.mpr fun n hm => ?_
    obtain ⟨hn, reference, hr, he⟩ := asked_of_pending hrest hm
    rw [hh] at hr
    rw [Reference.symbol?_congr hkq] at he
    exact recorded_round h (entry_of_asked name suggest hr he) (hq.table ▸ hn)
  obtain ⟨code', hc⟩ := compile_of_fault name suggest
    (hh ▸ fault_of_compile (compile_of_coded h) : (passOutline (hintsIn plan q) source).fault = none)
  obtain ⟨again, last, hr, _, hj, hf⟩ := round_of_unsearched hc (hp .helper)
    (by rw [hp .ambiguous]; nofun) (hp .partialTemplate)
  rw [hf (hp .ambiguous)] at hr
  exact ⟨code', last, hr, hj.trans hq.journal⟩

/-! ## 3. More known helpers -/

/-- More known helpers leave the same questions but for some members. -/
theorem thinner_passOutline {hints later : Hints} (h : hints.Grown later)
    (hs : (passOutline hints source).fault = none) :
    Outline.Thinner hints.known (passOutline later source) (passOutline hints source) := by
  unfold passOutline at hs ⊢
  by_cases he : source = ""
  · rw [if_pos he, if_pos he]
    exact .refl rfl
  · rw [if_neg he] at hs
    rw [if_neg he, if_neg he]
    exact h.thinner_compilationOutline hs

/-- **A round with more known helpers makes no search.** New are only members of the context, with the
    names of helpers that were found. -/
theorem round_of_grown {code : String} {anything : Bool} {q : Progress}
    (ho : plan.config.knownHelpersOnly = false)
    (h : (ofTemplate plan name suggest).round source p = (.ok (code, anything), later))
    (hq : later.Told q) :
    ∃ code again last, (ofTemplate plan name suggest).round source q = (.ok (code, again), last) ∧
      last.registry = q.registry ∧ last.journal.Agrees later.journal := by
  have hrest : ∀ kind, q.table.pending kind = [] := by
    rw [hq.table]
    exact pending_of_coded h
  have hg : (hintsIn plan p).Grown (hintsIn plan q) := by
    refine ⟨ho, ho, fun n hn => ?_⟩
    show n ∈ q.registry.known
    rw [hq.registry]
    exact known_round h hn
  have ht := thinner_passOutline hg (fault_of_compile (compile_of_coded h))
  -- helpers and partials were asked about in the round before
  have hnew {kind : SymbolKind} (hk : kind ≠ .ambiguous) :
      ((ofTemplate plan name suggest).compiled source q).table.pending kind = [] := by
    refine List.eq_nil_iff_forall_not_mem.mpr fun n hm => ?_
    obtain ⟨hn, reference, hr, he⟩ := asked_of_pending hrest hm
    have hb := entry_of_asked name suggest (ht.sublist.subset hr)
      (Reference.symbol?_of_ne_ambiguous he hk p.registry)
    exact recorded_round h hb (hq.table ▸ hn)
  -- a member that is ambiguous now has the name of a helper that was searched
  have hmember (n : String)
      (hm : n ∈ ((ofTemplate plan name suggest).compiled source q).table.pending .ambiguous) :
      ((ofTemplate plan name suggest).compiled source q).table.isAttempted .helper n = true := by
    obtain ⟨hn, reference, hr, he⟩ := asked_of_pending hrest hm
    obtain ⟨hknown, hold⟩ := Reference.symbol?_ambiguous he
    rw [hq.registry] at hknown
    rcases known_of_coded h hknown with hp | ⟨hl, _⟩
    · have hb := entry_of_asked name suggest (ht.sublist.subset hr) (hold _ hp)
      exact absurd (hq.table ▸ hn) (recorded_round h hb)
    · refine SymbolTable.isAttempted_of_le (le_compiled _ source q) ?_
      rwa [hq.table]
  obtain ⟨code', hc⟩ := compile_of_fault name suggest ht.fault
  obtain ⟨again, last, hr, hreg, hj, _⟩ := round_of_unsearched hc (hnew nofun) hmember (hnew nofun)
  exact ⟨code', again, last, hr, hreg, hj.trans hq.journal⟩

/-! ## 4. Nothing but known helpers -/

/-- **If only known helpers may be called, no other becomes known.** -/
theorem known_of_only {code : String} {anything : Bool}
    (ho : plan.config.knownHelpersOnly = true) (hp : ∀ kind, p.table.pending kind = [])
    (h : (ofTemplate plan name suggest).round source p = (.ok (code, anything), later)) :
    later.registry.known = p.registry.known := by
  refine Std.ExtTreeSet.ext_mem fun n => ⟨fun hn => ?_, fun hn => ?_⟩
  · rcases known_of_coded h hn with hn | ⟨_, hm | hm⟩
    · exact hn
    · obtain ⟨_, reference, hr, he⟩ := asked_of_pending hp hm
      obtain ⟨base, rfl⟩ := Reference.eq_of_symbol?_helper he
      unfold passOutline at hr
      by_cases hs : source = ""
      · rw [if_pos hs] at hr
        cases hr
      · rw [if_neg hs] at hr
        have hk : (hintsIn plan p).knownHelpersOnly = true := ho
        exact helpersKnown_compilationOutline hk source base n hr
    · obtain ⟨_, reference, hr, he⟩ := asked_of_pending hp hm
      exact (Reference.symbol?_ambiguous he).1
  · exact known_round h hn

/-! ## 5. The run -/

/-- **If the first round ends with code, the template settles**: two rounds later at most, one if only
    known helpers may be called, and without another search. -/
theorem rounds_ofTemplate {code : String} {anything : Bool}
    (hp : ∀ kind, p.table.pending kind = [])
    (h : (ofTemplate plan name suggest).round source p = (.ok (code, anything), later)) :
    ∃ settled last, (ofTemplate plan name suggest).rounds source p = some (.ok settled, last) ∧
      last.passes ≤ p.passes + 3 ∧
      (plan.config.knownHelpersOnly = true → last.passes ≤ p.passes + 2) ∧
      settled.passes = last.passes ∧ last.journal.Agrees later.journal := by
  have passes {q : Progress} {result : Except LoadError (String × Bool)} {last : Progress}
      (hr : (ofTemplate plan name suggest).round source q = (result, last)) :
      last.passes = q.passes + 1 := by
    rw [← passes_round (ofTemplate plan name suggest) source q, hr]
  have hlater := passes h
  cases anything with
  | false =>
    refine ⟨_, _, rounds_of_done h, ?_, fun _ => ?_, rfl, (finish_told _ code later).journal⟩
    · show later.passes ≤ p.passes + 3
      omega
    · show later.passes ≤ p.passes + 2
      omega
  | true =>
    have hq := enter_told (ofTemplate plan name suggest) "Recompiling" later
    have hqp := hq.passes
    rw [rounds_of_again h]
    cases ho : plan.config.knownHelpersOnly with
    | true =>
      obtain ⟨code₂, last, h₂, hj⟩ := round_of_known h (known_of_only ho hp h) hq
      have hlast := passes h₂
      refine ⟨_, _, rounds_of_done h₂, ?_, fun _ => ?_, rfl,
        (finish_told _ code₂ last).journal.trans hj⟩
      · show last.passes ≤ p.passes + 3
        omega
      · show last.passes ≤ p.passes + 2
        omega
    | false =>
      obtain ⟨code₂, again, last, h₂, hreg, hj⟩ := round_of_grown ho h hq
      have hlast := passes h₂
      cases again with
      | false =>
        refine ⟨_, _, rounds_of_done h₂, ?_, nofun, rfl,
          (finish_told _ code₂ last).journal.trans hj⟩
        show last.passes ≤ p.passes + 3
        omega
      | true =>
        have hq₂ := enter_told (ofTemplate plan name suggest) "Recompiling" last
        have hqp₂ := hq₂.passes
        obtain ⟨code₃, end₃, h₃, hj₃⟩ := round_of_known h₂ (by rw [hreg]) hq₂
        have hend := passes h₃
        refine ⟨_, _, (rounds_of_again h₂).trans (rounds_of_done h₃), ?_, nofun, rfl,
          (finish_told _ code₃ end₃).journal.trans (hj₃.trans hj)⟩
        show end₃.passes ≤ p.passes + 3
        omega

/-- No symbol is recorded when a job begins. -/
theorem pending_start (registry : Registry) (journal : Journal) (kind : SymbolKind) :
    ({ registry, journal } : Progress).table.pending kind = [] := by
  refine List.eq_nil_iff_forall_not_mem.mpr fun n hm => ?_
  rw [SymbolTable.mem_pending, SymbolTable.get?_empty] at hm
  cases hm

/-- **A template settles in three rounds at most**, in two if there are directories of helpers; and all
    probes and searches are made between the first pass and the end of the first round. -/
theorem template_rounds (plan : SearchPlan) (name : String) (suggest : String → List String)
    (source : String) (registry : Registry) (journal : Journal) :
    let job := ofTemplate plan name suggest
    let start : Progress := { registry, journal }
    ∃ outcome last, job.rounds source start = some (outcome, last) ∧
      job.settle source registry journal = (outcome, last) ∧
      last.passes ≤ 3 ∧ (plan.config.helperDirs ≠ [] → last.passes ≤ 2) ∧
      (∀ settled, outcome = .ok settled → settled.passes = last.passes) ∧
      (job.compiled source start).journal.probes = journal.probes ∧
      (job.compiled source start).journal.searches = journal.searches ∧
      last.journal.probes = (job.round source start).2.journal.probes ∧
      last.journal.searches = (job.round source start).2.journal.searches := by
  intro job start
  have hc := (job.compiled_spec source start).2.2.2
  have hpasses := job.passes_round source start
  rcases hr : job.round source start with ⟨error | ⟨code, anything⟩, later⟩
  · rw [hr] at hpasses
    have hrounds := rounds_of_error hr
    have hl : later.passes = 1 := hpasses
    exact ⟨_, _, hrounds, settle_of_rounds hrounds, by omega, fun _ => by omega, nofun, hc.probes,
      hc.searches, rfl, rfl⟩
  · obtain ⟨settled, last, hrounds, h₃, h₂, hs, hj⟩ :=
      rounds_ofTemplate (pending_start registry journal) hr
    refine ⟨_, _, hrounds, settle_of_rounds hrounds, by simpa using h₃, fun hd => ?_, ?_, hc.probes,
      hc.searches, hj.probes, hj.searches⟩
    · have ho : plan.config.knownHelpersOnly = true := by
        simpa [Config.knownHelpersOnly] using hd
      simpa using h₂ ho
    · rintro _ ⟨⟩
      exact hs

end Job

end Stache
