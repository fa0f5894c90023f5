import Stache.Proofs.Job.Settled
import Stache.Proofs.Spec.PartialNames

/-!
# The partials that are looked for

A loader looks for the partials that the tags of a template name, and under the names that the compiler was
asked about. A name is the lookup in its tag as it is written, unless a single dot stands in it.

* `round_partials` -- the first round of a job looks for the partials that its pass asks about;
* `mem_entries_named` -- the pass of a template that is not rejected asks about the partials that the source
  text names;
* `settle_partials` -- **so these are looked for**, whatever the job comes to, and all of them if it settles;
* `partials_named` -- from the source text to the files that are looked for.
-/

namespace Stache

namespace Job

/-! ## 1. The first round -/

/-- A search of another kind is not for a partial. -/
theorem not_mem_searches (kind : SymbolKind) (hk : kind ≠ .partialTemplate) (names : List String) (n : String) :
    (SymbolKind.partialTemplate, n) ∉ names.map (kind, ·) := by
  intro hm
  obtain ⟨_, _, he⟩ := List.mem_map.mp hm
  exact hk (Prod.mk.inj he).1

theorem mem_searches {names : List String} {n : String} :
    (SymbolKind.partialTemplate, n) ∈ names.map (SymbolKind.partialTemplate, ·) ↔ n ∈ names := by
  simp

/-- Before the stage of the partials nobody looks for one. -/
theorem ambiguousSearched_partials (job : Job) (source : String) (p : Progress) :
    ∃ searched, (job.ambiguousSearched source p).2.journal.searches = p.journal.searches ++ searched ∧
      ∀ n, (.partialTemplate, n) ∉ searched := by
  obtain ⟨_, hh⟩ := job.helpersSearched_spec source p
  obtain ⟨_, ha⟩ := job.ambiguousSearched_spec source p
  have hj := (job.compiled_spec source p).2.2.2
  refine ⟨_, by rw [ha.searches, hh.searches, hj.searches, List.append_assoc], fun n hm => ?_⟩
  rcases List.mem_append.mp hm with hm | hm
  · exact not_mem_searches .helper nofun _ n hm
  · exact not_mem_searches .ambiguous nofun _ n hm

/-- **The first round looks for the partials that its pass asks about**, and for all of them if it ends with
    code. If the template is rejected, it looks for none. -/
theorem round_partials (job : Job) (source : String) (registry : Registry) (journal : Journal) :
    let start : Progress := { registry, journal }
    ∃ searched, (job.round source start).2.journal.searches = journal.searches ++ searched ∧
      (∀ n, (.partialTemplate, n) ∈ searched →
        (∃ code, (job.compile source (job.begun start)).1 = .ok code) ∧
          (.partialTemplate, n) ∈ job.entries source start) ∧
      ∀ result, (job.round source start).1 = .ok result →
        (∃ code, (job.compile source (job.begun start)).1 = .ok code) ∧
          ∀ n, (.partialTemplate, n) ∈ job.entries source start → (.partialTemplate, n) ∈ searched := by
  intro start
  have ends := job.round_ends source start
  -- the table is empty at the start, so what is pending in the end is what the pass asked about
  obtain ⟨before, hbefore, hnone⟩ := job.ambiguousSearched_partials source start
  generalize job.round source start = outcome at ends ⊢
  cases ends with
  | rejected =>
    have hj := (job.compiled_spec source start).2.2.2
    exact ⟨[], by rw [hj.searches, List.append_nil], nofun, nofun⟩
  | @missing code compile name later searched =>
    refine ⟨before ++ ((job.ambiguousSearched source start).2.table.pending .partialTemplate).map
      (.partialTemplate, ·), ?_, fun n hm => ⟨⟨code, compile⟩, ?_⟩, nofun⟩
    · rw [searched.searches, hbefore, List.append_assoc]
    · have hm := mem_searches.mp ((List.mem_append.mp hm).resolve_left (hnone n))
      exact mem_pendingPartials_entries.mp hm
  | @coded code compile place anything later searched =>
    refine ⟨before ++ ((job.ambiguousSearched source start).2.table.pending .partialTemplate).map
      (.partialTemplate, ·), ?_, fun n hm => ⟨⟨code, compile⟩, ?_⟩, fun _ _ => ⟨⟨code, compile⟩, fun n hm => ?_⟩⟩
    · rw [searched.searches, hbefore, List.append_assoc]
    · have hm := mem_searches.mp ((List.mem_append.mp hm).resolve_left (hnone n))
      exact mem_pendingPartials_entries.mp hm
    · exact List.mem_append_right _ (mem_searches.mpr (mem_pendingPartials_entries.mpr hm))

/-! ## 2. The partials of a template -/

variable {plan : SearchPlan} {name : String} {suggest : String → List String} {source : String}

/-- The symbols of partials among references are the partials that the runtime does not provide. -/
theorem mem_symbols_partial {references : List Reference} {registry : Registry} {n : String} :
    (.partialTemplate, n) ∈ references.filterMap (Reference.symbol? registry) ↔
      n ∈ askedPartials references ∧ isProvidedPartial n = false := by
  unfold askedPartials
  rw [List.mem_filterMap, List.mem_filterMap]
  constructor
  · rintro ⟨reference, hm, he⟩
    obtain ⟨base, rfl, hn⟩ := Reference.eq_of_symbol?_partial he
    exact ⟨⟨_, hm, rfl⟩, hn⟩
  · rintro ⟨⟨reference, hm, he⟩, hn⟩
    rcases reference with ⟨_ | _ | _ | _, base, name⟩ | value | text <;> cases he
    refine ⟨_, hm, ?_⟩
    rw [Reference.symbol?, hn]
    rfl

/-- The partials along the outline of a pass that is not rejected are those that the source text names. -/
theorem perm_passOutline {hints : Hints} (hf : (passOutline hints source).fault = none) :
    (askedPartials (passOutline hints source).references).Perm (partialNames source) := by
  unfold passOutline at hf ⊢
  split
  · rename_i hs
    have hnames : partialNames "" = [] := by decide +kernel
    rw [hs, hnames]
    exact .nil
  · rename_i hs
    rw [if_neg hs] at hf
    -- nobody has to answer
    have hasks := asks_compilation hints source
    have hrun := hasks.run_eq (fun _ state => (none, state)) ()
    rw [hf] at hrun
    obtain ⟨code, hcode⟩ := hrun
    rw [← hasks.asked_eq (fun _ state => (none, state)) ()]
    exact perm_partialNames hcode

/-- **The pass of a template that is not rejected** asks about the partials that the source text names, but for
    those that the runtime provides. -/
theorem mem_entries_named {p : Progress} {code : String}
    (hc : ((ofTemplate plan name suggest).compile source ((ofTemplate plan name suggest).begun p)).1 = .ok code)
    {n : String} : (.partialTemplate, n) ∈ (ofTemplate plan name suggest).entries source p ↔
      n ∈ partialNames source ∧ isProvidedPartial n = false := by
  rw [entries_ofTemplate, mem_symbols_partial, (perm_passOutline (fault_of_compile hc)).mem_iff]

/-- **A job looks for the partials that its source text names**, and for all of them if it settles. -/
theorem settle_partials (plan : SearchPlan) (name : String) (suggest : String → List String) (source : String)
    (registry : Registry) (journal : Journal) :
    let outcome := (ofTemplate plan name suggest).settle source registry journal
    ∃ searched, outcome.2.journal.searches = journal.searches ++ searched ∧
      (∀ n, (.partialTemplate, n) ∈ searched → n ∈ partialNames source ∧ isProvidedPartial n = false) ∧
      ∀ settled, outcome.1 = .ok settled → ∀ n ∈ partialNames source, isProvidedPartial n = false →
        (.partialTemplate, n) ∈ searched := by
  intro outcome
  obtain ⟨searched, hsearches, hnamed, hall⟩ :=
    (ofTemplate plan name suggest).round_partials source registry journal
  have named (n : String) (hm : (.partialTemplate, n) ∈ searched) :
      n ∈ partialNames source ∧ isProvidedPartial n = false := by
    obtain ⟨⟨_, hc⟩, hentry⟩ := hnamed n hm
    exact (mem_entries_named hc).mp hentry
  rcases hr : (ofTemplate plan name suggest).round source { registry, journal } with
    ⟨error | result, later⟩
  · -- the job ends with its first round
    have hsettle : outcome = _ := settle_of_rounds (rounds_of_error hr)
    rw [hr] at hsearches
    rw [hsettle]
    exact ⟨searched, hsearches, named, nofun⟩
  · -- the later rounds make no search
    obtain ⟨settled, last, hrounds, _, _, _, hj⟩ := rounds_ofTemplate (pending_start registry journal) hr
    have hsettle : outcome = _ := settle_of_rounds hrounds
    rw [hr] at hsearches hall
    rw [hsettle]
    refine ⟨searched, hj.searches.trans hsearches, named, fun _ _ n hn hprovided => ?_⟩
    obtain ⟨⟨_, hc⟩, hsearched⟩ := hall result rfl
    exact hsearched n ((mem_entries_named hc).mpr ⟨hn, hprovided⟩)

/-- **From the source text to the search.** Whoever answers, an accepted template is asked about the partials
    that its tags name, each as often, and where the name in a tag of a partial or of a partial block is a lookup
    it is the spelling of the lookup. The lookup is written in the source text where the tag was read, and
    without brackets and blanks it is spelled as it is written, but for single dots that are the name `this`:
    with one of them it is spelled otherwise, without one it is the text itself. A job looks for the partials
    under these names and no others, and for all of them if it settles, but for those that the runtime
    provides. -/
theorem partials_named (source : String) :
    (∀ {σ : Type} (hints : Hints) (policy : Reference → σ → Option String × σ) (state : σ) (code : String),
      ((compilation hints source).run policy state).1 = .ok code →
        (askedPartials ((compilation hints source).asked policy state)).Perm (partialNames source) ∧
        ∃ segments, scan source = .ok segments ∧ ∀ tag, .tag tag ∈ segments → tag.IsPartial →
          ∀ r : Read Lookup tag.tokens, Lookup.read tag.tokens = .ok r →
            (Segment.tag tag).partialName? = some r.value.spelling ∧ Spelled source tag r) ∧
    (∀ (plan : SearchPlan) (name : String) (suggest : String → List String) (registry : Registry)
      (journal : Journal),
      let outcome := (ofTemplate plan name suggest).settle source registry journal
      ∃ searched, outcome.2.journal.searches = journal.searches ++ searched ∧
        (∀ n, (.partialTemplate, n) ∈ searched → n ∈ partialNames source ∧ isProvidedPartial n = false) ∧
        ∀ settled, outcome.1 = .ok settled → ∀ n ∈ partialNames source, isProvidedPartial n = false →
          (.partialTemplate, n) ∈ searched) := by
  refine ⟨fun hints policy state code h => ⟨perm_partialNames h, named_of_compilation h⟩, ?_⟩
  intro plan name suggest registry journal
  exact settle_partials plan name suggest source registry journal

/-- The partial that is written with a single dot is found where everything is found, under the name that the
    dot stands for. -/
theorem partials_named_dot :
    (∃ code, ((compilation ⟨false, ∅⟩ dotSource).run (fun _ state => (none, state)) ()).1 = .ok code ∧
      askedPartials ((compilation ⟨false, ∅⟩ dotSource).asked (fun _ state => (none, state)) ()) =
        ["this/b"]) ∧
    (∃ r : Read Lookup dotTokens, Lookup.read dotTokens = .ok r ∧
      (Segment.tag ⟨.partialTemplate, dotTokens, ⟨1, 1⟩⟩).partialName? = some r.value.spelling ∧
        Spelled dotSource ⟨.partialTemplate, dotTokens, ⟨1, 1⟩⟩ r) ∧
    ∃ settled last, (ofTemplate everywhere "t" fun _ => []).settle dotSource {} [] = (.ok settled, last) ∧
      (.partialTemplate, "this/b") ∈ last.journal.searches := by
  obtain ⟨hcompiled, hjob⟩ := partials_named dotSource
  have hend := (asks_compilation ⟨false, ∅⟩ dotSource).run_eq (fun _ state => (none, state)) ()
  rw [outline_dot] at hend
  obtain ⟨code, hcode⟩ := hend
  obtain ⟨hperm, segments, hscan, hnamed⟩ := hcompiled ⟨false, ∅⟩ (fun _ state => (none, state)) () code hcode
  cases scan_dot.symm.trans hscan
  obtain ⟨hname, hspelled⟩ := hnamed _ (List.mem_singleton.mpr rfl) (.inl rfl) _ rfl
  have hnames : partialNames dotSource = ["this/b"] := by
    rw [partialNames, scan_dot]
    exact (List.filterMap_cons_some hname).trans rfl
  rw [hnames] at hperm hjob
  have hf : (passOutline ⟨everywhere.config.knownHelpersOnly, ({} : Registry).known⟩ dotSource).fault = none := by
    rw [passOutline, if_neg (by decide), outline_dot]
  obtain ⟨settled, last, hsettle⟩ := settles_of_found "t" (fun _ => []) (by decide) hf
    (finds_found fun _ base request => ⟨base.join ⟨request⟩, rfl⟩) []
  obtain ⟨searched, hsearches, _, hall⟩ := hjob everywhere "t" (fun _ => []) {} []
  rw [hsettle] at hsearches hall
  refine ⟨⟨code, hcode, List.perm_singleton.mp hperm⟩, ⟨_, rfl, hname, hspelled⟩, settled, last, hsettle, ?_⟩
  rw [hsearches]
  exact List.mem_append_right _ (hall settled rfl "this/b" (List.mem_singleton.mpr rfl) rfl)

end Job

end Stache
