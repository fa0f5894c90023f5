import Stache.Proofs.Job.Account

/-!
# A run that is made again

If the resolver gives the same answers at any time, a run that begins with the registry that another run
of the same template left settles the template in the same way. It may take other rounds: more helpers are
known from the start, and what the registry has found is not looked for.

* `Accounts.again` -- an account since the registry that the first run left has the places of the first;
* `known_reached` -- no helper becomes known in the second run;
* `settled_again` -- the second run comes to the code, the table and the registry of the first.
-/

namespace Stache

variable {plan : SearchPlan} {registry : Registry} {asked : List (SymbolKind × String)}
  {place place' : String → Option Path} {file file' : String → Path} {p later : Progress}

namespace Progress.Accounts

/-! ## 1. Two accounts -/

/-- What was found before is given now, and what is looked for again comes to the same. -/
theorem place_again (steady : ∀ made, plan.resolver made = plan.resolver 0)
    (h : p.Accounts plan registry asked place file)
    (h' : later.Accounts plan p.registry asked place' file') {n : String}
    (hn : (.helper, n) ∈ asked ∨ (.ambiguous, n) ∈ asked) : place' n = place n := by
  have hp := h.paths n
  rw [if_pos hn] at hp
  by_cases hh : (.helper, n) ∈ asked
  · cases hf : place n with
    | some path =>
      rw [hf, Option.some_or] at hp
      exact h'.given n path hh hp
    | none =>
      cases hr : registry.path? n with
      | some path =>
        rw [h.given n path hh hr] at hf
        cases hf
      | none =>
        rw [hf, hr, Option.or_none] at hp
        rw [← hf]
        exact (h'.helper n hh hp).unique steady (h.helper n hh hr)
  · have hm := hn.resolve_left hh
    exact (h'.member n hh hm).unique steady (h.member n hh hm)

theorem file_again (steady : ∀ made, plan.resolver made = plan.resolver 0)
    (h : p.Accounts plan registry asked place file)
    (h' : later.Accounts plan p.registry asked place' file') {n : String}
    (hn : (.partialTemplate, n) ∈ asked) : file' n = file n :=
  Option.some.inj ((h'.found n hn).unique steady (h.found n hn))

/-- **An account that begins where another ends**, with the same questions, leaves the same table and the
    same registry. -/
theorem again (steady : ∀ made, plan.resolver made = plan.resolver 0)
    (h : p.Accounts plan registry asked place file)
    (h' : later.Accounts plan p.registry asked place' file') :
    later.table = p.table ∧ later.registry.known = p.registry.known ∧
      later.registry.found = p.registry.found := by
  have hplace {n : String} := place_again steady h h' (n := n)
  refine ⟨SymbolTable.ext_get? fun kind n => ?_, Std.ExtTreeSet.ext_mem fun n => ?_,
    Std.ExtTreeMap.ext_getElem? fun n => ?_⟩
  · cases kind with
    | partialTemplate =>
      rw [h.partials, h'.partials]
      split
      · rename_i hn
        rw [file_again steady h h' hn]
      · rfl
    | helper =>
      rw [h.helpers, h'.helpers]
      by_cases hn : (.helper, n) ∈ asked ∨ (.ambiguous, n) ∈ asked
      · rw [hplace hn]
      · rw [not_or] at hn
        rw [if_neg (by simp [hn]), if_neg (by simp [hn])]
    | ambiguous =>
      rw [h.ambiguous, h'.ambiguous]
      split
      · rename_i hn
        rw [hplace (.inr hn)]
      · rfl
  · rw [h'.known, or_iff_left_of_imp]
    rintro ⟨hn, hf⟩
    rw [hplace (.inl hn)] at hf
    exact (h.known n).mpr (.inr ⟨hn, hf⟩)
  · show later.registry.path? n = p.registry.path? n
    rw [h'.paths]
    split
    · rename_i hn
      rw [hplace hn, h.paths, if_pos hn]
      cases place n <;> rfl
    · rfl

end Progress.Accounts

namespace Job

variable {name : String} {suggest : String → List String} {source : String}

/-! ## 2. The second run -/

/-- The partials that the first run found are found again. -/
theorem round_again (steady : ∀ made, plan.resolver made = plan.resolver 0)
    (h : p.Accounts plan registry ((ofTemplate plan name suggest).entries source p) place file)
    (hf : (passOutline (hintsIn plan p) source).fault = none) (journal : Journal) :
    ∃ code anything later, (ofTemplate plan name suggest).round source
      { registry := p.registry, journal } = (.ok (code, anything), later) := by
  have ends := (ofTemplate plan name suggest).round_ends source { registry := p.registry, journal }
  generalize (ofTemplate plan name suggest).round source { registry := p.registry, journal } = result
    at ends
  cases ends with
  | rejected compile =>
    obtain ⟨code, hc⟩ := compile_of_fault name suggest (p := { registry := p.registry, journal }) hf
    exact absurd (hc.symm.trans compile) nofun
  | @missing _ _ n later _ givenUp =>
    have hn := givenUp.mem
    rw [mem_pendingPartials_entries,
      entries_congr (p := p) (q := { registry := p.registry, journal }) rfl] at hn
    obtain ⟨other, ho⟩ := h.found n hn
    have hfinds := (plan.isSome_search .partialTemplate n other).mp (by rw [ho]; rfl)
    rw [plan.finds_of_steady steady] at hfinds
    exact absurd ((plan.finds_of_steady steady ..).mpr hfinds) givenUp.missed
  | coded => exact ⟨_, _, _, rfl⟩

/-- **No helper becomes known in the second run.** -/
theorem known_reached (steady : ∀ made, plan.resolver made = plan.resolver 0)
    (h : p.Accounts plan registry ((ofTemplate plan name suggest).entries source p) place file)
    {journal : Journal} {q : Progress}
    (hq : (ofTemplate plan name suggest).Reached source { registry := p.registry, journal } q) :
    q.registry.known = p.registry.known := by
  induction hq with
  | start => rfl
  | @again r later code before round ih =>
    have ht := enter_told (ofTemplate plan name suggest) "Recompiling" later
    rw [ht.registry]
    rcases accounted_reached before with rfl | ha
    · -- the first round asks what the last pass of the first run asked
      obtain ⟨⟨place', file', ha⟩, _⟩ := accounts_first round
      rw [entries_congr (p := p) ih] at ha
      exact (h.again steady ha).2.1
    · rw [(ha.again round).1, ih]

variable {journal : Journal} {settled : Settled}

/-- The last pass of a settled template was not rejected, and no helper became known since. -/
theorem last_of_settle
    (h : (ofTemplate plan name suggest).settle source registry journal = (.ok settled, p)) :
    ∃ q later, (ofTemplate plan name suggest).Reached source { registry, journal } q ∧
      (ofTemplate plan name suggest).round source q = (.ok (settled.code, false), later) ∧
      p.registry = q.registry := by
  obtain ⟨q, hq, hend⟩ := rounds_last (rounds_of_settle h)
  cases hend with
  | @settled code later round => exact ⟨q, later, hq, round, (round_of_nothing round rfl).2.1⟩

/-- An empty template has no code. -/
theorem code_of_empty
    (h : (ofTemplate plan name suggest).settle "" registry journal = (.ok settled, p)) :
    settled.code = "" := by
  obtain ⟨_, _, _, round, _⟩ := last_of_settle h
  have hc := compile_of_coded round
  rw [compile, if_pos rfl] at hc
  exact (Except.ok.inj hc).symm

/-- The code of a settled template is told by its table and the known helpers. -/
theorem code_of_settle {registry' : Registry} {journal' : Journal} {again : Settled} {q : Progress}
    (h : (ofTemplate plan name suggest).settle source registry journal = (.ok settled, p))
    (h' : (ofTemplate plan name suggest).settle source registry' journal' = (.ok again, q))
    (ht : again.table = settled.table) (hk : q.registry.known = p.registry.known) :
    again.code = settled.code := by
  by_cases hs : source = ""
  · subst hs
    rw [code_of_empty h, code_of_empty h']
  · obtain ⟨_, raw, hcode, hrun, _⟩ := dialogue_of_settle hs h
    obtain ⟨_, raw', hcode', hrun', _⟩ := dialogue_of_settle hs h'
    rw [ht, hk, hrun] at hrun'
    cases hrun'
    rw [hcode, hcode']

/-- **A template settles again as it settled**: if the resolver gives the same answers at any time, a run
    that begins with the registry of a run before comes to the same code and the same table, hence to the
    same dependencies, and leaves the registry as it was. -/
theorem settled_again (steady : ∀ made, plan.resolver made = plan.resolver 0)
    (h : (ofTemplate plan name suggest).settle source registry journal = (.ok settled, p))
    (journal' : Journal) :
    ∃ again q, (ofTemplate plan name suggest).settle source p.registry journal' = (.ok again, q) ∧
      again.code = settled.code ∧ again.table = settled.table ∧
      again.table.dependencies = settled.table.dependencies ∧
      q.registry.known = p.registry.known ∧ q.registry.found = p.registry.found := by
  obtain ⟨ht, place, file, ha⟩ := accounts_of_settle h
  -- the first run ended with a pass that was not rejected, so the first pass now is not rejected
  obtain ⟨last, _, _, round, hregistry⟩ := last_of_settle h
  have hf : (passOutline (hintsIn plan p) source).fault = none := by
    rw [hintsIn, hregistry]
    exact fault_of_compile (compile_of_coded round)
  obtain ⟨_, _, _, hfirst⟩ := round_again steady ha hf journal'
  obtain ⟨again, q, hrounds, _⟩ := rounds_ofTemplate (pending_start p.registry journal') hfirst
  have h' := settle_of_rounds hrounds
  refine ⟨again, q, h', ?_⟩
  -- the last pass now asks what the last pass asked before
  obtain ⟨last', _, hreached, _, hregistry'⟩ := last_of_settle h'
  have hk : q.registry.known = p.registry.known := by
    rw [hregistry', known_reached steady ha hreached]
  obtain ⟨ht', place', file', ha'⟩ := accounts_of_settle h'
  rw [entries_congr hk] at ha'
  obtain ⟨htable, _, hfound⟩ := ha.again steady ha'
  rw [ht, ht'] at htable
  exact ⟨code_of_settle h h' htable hk, htable, congrArg _ htable, hk, hfound⟩

/-- The template of every kind settles again where everything is found: its symbols are found where they were
    found before. -/
theorem settled_again_everywhere :
    ∃ settled p again q, (∀ made, everywhere.resolver made = everywhere.resolver 0) ∧
      (ofTemplate everywhere "t" fun _ => []).settle everyKind (.insert {} "n") [] = (.ok settled, p) ∧
      ((∃ path, settled.table.get? .partialTemplate "b" = some (.resolved path)) ∧
        (∃ path, settled.table.get? .helper "m" = some (.resolved path)) ∧
        ∃ path, settled.table.get? .ambiguous "n" = some (.resolved path)) ∧
      (ofTemplate everywhere "t" fun _ => []).settle everyKind p.registry p.journal = (.ok again, q) ∧
      again.code = settled.code ∧ again.table = settled.table ∧
      again.table.dependencies = settled.table.dependencies ∧
      q.registry.known = p.registry.known ∧ q.registry.found = p.registry.found := by
  have steady (made : Nat) : everywhere.resolver made = everywhere.resolver 0 := rfl
  obtain ⟨settled, p, h, hrecorded⟩ := recorded_everyKind
  obtain ⟨again, q, h'⟩ := settled_again steady h p.journal
  exact ⟨settled, p, again, q, steady, h, hrecorded, h'⟩

end Job

end Stache
