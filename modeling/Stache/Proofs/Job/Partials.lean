import Stache.Proofs.Job.Searching

/-!
# The search for partials

The pending partials are looked for side by side. The stage ends well if all of them are found; otherwise it
ends with the one that is given up first: `searchPartials_spec`. In the words of the journal, a partial is
found if `SearchPlan.Finds` holds of it after the probes that were made before it was looked for.
-/

namespace Stache

namespace Job

variable (job : Job)

/-! ## 1. The first to be given up -/

/-- The search for a partial found it, begun when the journal tells that it was. -/
def foundPartial (later : Progress) (name : String) : Prop :=
  job.plan.Finds .partialTemplate name (later.journal.probesBefore .partialTemplate name)

/-- Of the names that were not found, this one is given up first: none is given up sooner, and none that is
    less is given up as soon. -/
structure GivenUp (names : List String) (later : Progress) (name : String) : Prop where
  mem : name ∈ names
  missed : ¬ job.foundPartial later name
  first : ∀ n ∈ names, ¬ job.foundPartial later n →
    job.plan.delay name ≤ job.plan.delay n ∧ (n < name → job.plan.delay name < job.plan.delay n)

theorem eq_nil_of_minOn? {delay : String → Nat} {names : List String} (h : names.minOn? delay = none) :
    names = [] := by
  cases names with
  | nil => rfl
  | cons first names =>
    rw [List.minOn?_cons] at h
    cases h

/-- The soonest name of a sorted list. -/
theorem of_minOn? {delay : String → Nat} {names : List String} (hs : names.Pairwise (· < ·)) {name : String}
    (h : names.minOn? delay = some name) :
    name ∈ names ∧ ∀ n ∈ names, delay name ≤ delay n ∧ (n < name → delay name < delay n) := by
  refine ⟨List.minOn?_mem h, ?_⟩
  induction names generalizing name with
  | nil => exact nofun
  | cons first names ih =>
    obtain ⟨hfirst, hs⟩ := List.pairwise_cons.mp hs
    rw [List.minOn?_cons] at h
    cases hrest : names.minOn? delay with
    | none =>
      -- the first name is the only one
      rw [hrest] at h
      obtain rfl := Option.some.inj h
      obtain rfl := eq_nil_of_minOn? hrest
      exact List.forall_mem_singleton.mpr ⟨Nat.le_refl _, fun hlt => absurd hlt (String.lt_irrefl _)⟩
    | some other =>
      rw [hrest] at h
      have ih := ih hs hrest
      have hother := hfirst other (List.minOn?_mem hrest)
      rcases Nat.lt_or_ge (delay other) (delay first) with hlt | hle
      · obtain rfl : other = name := by simpa [minOn, Nat.not_le.mpr hlt] using h
        exact List.forall_mem_cons.mpr ⟨⟨Nat.le_of_lt hlt, fun _ => hlt⟩, ih⟩
      · obtain rfl : first = name := by simpa [minOn, hle] using h
        refine List.forall_mem_cons.mpr
          ⟨⟨Nat.le_refl _, fun hlt => absurd hlt (String.lt_irrefl _)⟩, fun n hn => ?_⟩
        exact ⟨Nat.le_trans hle (ih n hn).1,
          fun hlt => absurd (String.lt_trans hlt (hfirst n hn)) (String.lt_irrefl _)⟩

/-! ## 2. The searches -/

/-- The end of the search for some partials. -/
structure PartialsSearched (names : List String) (p later : Progress) : Prop where
  table : later.table = p.table
  registry : later.registry = p.registry
  passes : later.passes = p.passes
  searches : later.journal.searches =
    p.journal.searches ++ names.map (SymbolKind.partialTemplate, ·)

theorem PartialsSearched.ofTold {names : List String} {p q later : Progress}
    (h : PartialsSearched names q later) (hq : p.Told q) : PartialsSearched names p later where
  table := h.table.trans hq.table
  registry := h.registry.trans hq.registry
  passes := h.passes.trans hq.passes
  searches := by rw [h.searches, hq.journal.searches]

/-- The names that were not found, in the order in which they were looked for. -/
theorem missed_map (found : String → Option Path) (names : List String) :
    missed (names.map fun n => (n, found n)) = names.filter fun n => (found n).isNone := by
  rw [missed, List.filter_map, List.map_map]
  exact List.map_id _

/-- What is known after some partials were noted. -/
theorem get?_foldl_notePartial (found : String → Option Path) {names : List String} (hn : names.Nodup)
    (p : Progress) (kind : SymbolKind) (n : String) :
    (names.foldl (fun p n => notePartial p (n, found n)) p).table.get? kind n =
      if n ∈ names then
        if kind = .partialTemplate then
          match found n with
          | some path => some (((p.table.get? kind n).getD .pending).found path)
          | none => p.table.get? kind n
        else p.table.get? kind n
      else p.table.get? kind n := by
  refine foldl_own (fun p n => p.table.get? kind n)
    (fun n state =>
      if kind = .partialTemplate then
        match found n with
        | some path => some ((state.getD .pending).found path)
        | none => state
      else state) ?_ hn p n
  intro p m n
  by_cases e : m = n
  · subst e
    cases hf : found m <;> cases kind <;> simp [notePartial, SymbolTable.get?_markResolved]
  · cases hf : found m <;> simp [notePartial, SymbolTable.get?_markResolved, e]

/-- To note partials changes nothing but the table, which grows. -/
theorem foldl_notePartial (results : List (String × Option Path)) (p : Progress) :
    let later := results.foldl notePartial p
    later.registry = p.registry ∧ later.journal = p.journal ∧ later.passes = p.passes ∧
      p.table ≤ later.table := by
  induction results generalizing p with
  | nil => exact ⟨rfl, rfl, rfl, le_refl _⟩
  | cons result results ih =>
    obtain ⟨hregistry, hjournal, hpasses, hle⟩ := ih (notePartial p result)
    obtain ⟨name, _ | path⟩ := result
    · exact ⟨hregistry, hjournal, hpasses, hle⟩
    · exact ⟨hregistry, hjournal, hpasses, le_trans (p.table.le_markResolved .partialTemplate name path) hle⟩

/-- **The stage of the partials**: all that are pending are found, or the first that is given up ends the
    job. -/
theorem searchPartials_spec (p : Progress) :
    let names := p.table.pending .partialTemplate
    let later := (job.searchPartials p).2
    (∃ (place : String → Path) (anything : Bool), (job.searchPartials p).1 = .ok anything ∧
      p.Searched job.plan .partialTemplate names (fun n => some (place n)) anything later ∧
      ∀ n ∈ names, job.foundPartial later n) ∨
    ∃ name, (job.searchPartials p).1 = .error (.partialNotFound name (job.suggest name)) ∧
      PartialsSearched names p later ∧ job.GivenUp names later name := by
  have hn := p.table.pending_nodup .partialTemplate
  have hs : (p.table.pending .partialTemplate).Pairwise (· < ·) := SymbolTable.pending_ordered _ _
  have hnil : p.table.pending .partialTemplate = [] →
      (job.plan.searchAll .partialTemplate p.journal (p.table.pending .partialTemplate)).2 = p.journal := by
    intro e
    rw [e]
    rfl
  obtain ⟨found, hresults, hsearches, hout⟩ := job.plan.searchAll_spec .partialTemplate _ p.journal hn
  have hfinds : ∀ n ∈ p.table.pending .partialTemplate, ((found n).isSome = true ↔
      job.plan.Finds .partialTemplate n ((job.plan.searchAll .partialTemplate p.journal
        (p.table.pending .partialTemplate)).2.probesBefore .partialTemplate n)) := by
    intro n hm
    refine job.plan.isSome_searchAll .partialTemplate hn p.journal ?_
    rw [hresults]
    exact List.mem_map_of_mem hm
  unfold searchPartials searchAll
  dsimp only
  rw [hresults, missed_map]
  generalize (job.plan.searchAll .partialTemplate p.journal (p.table.pending .partialTemplate)).2 = journal
    at hsearches hnil hfinds ⊢
  cases hfirst : ((p.table.pending .partialTemplate).filter fun n => (found n).isNone).minOn? job.plan.delay with
  | some name =>
    obtain ⟨hm, hfirst⟩ := of_minOn? (hs.filter _) hfirst
    obtain ⟨hm, hnone⟩ := List.mem_filter.mp hm
    refine .inr ⟨name, rfl, ⟨rfl, rfl, rfl, hsearches⟩, hm, fun h => ?_, fun n hn hx => hfirst n ?_⟩
    · have hfound := (hfinds name hm).mpr h
      rw [Option.isNone_iff_eq_none.mp hnone] at hfound
      cases hfound
    · rw [List.mem_filter, ← Option.not_isSome, Bool.not_eq_true']
      exact ⟨hn, Bool.eq_false_iff.mpr fun h => hx ((hfinds n hn).mp h)⟩
  | none =>
    have hall (n : String) (hm : n ∈ p.table.pending .partialTemplate) :
        found n = some ((found n).getD ⟨""⟩) := by
      have hn := List.filter_eq_nil_iff.mp (eq_nil_of_minOn? hfirst) n hm
      cases hf : found n with
      | none => exact absurd (by rw [hf]; rfl) hn
      | some path => rfl
    obtain ⟨hregistry, hjournal, hpasses, hle⟩ := foldl_notePartial
      ((p.table.pending .partialTemplate).map fun n => (n, found n)) { p with journal }
    have ht := get?_foldl_notePartial found hn { p with journal }
    rw [← List.foldl_map (f := fun n => (n, found n)) (g := notePartial)] at ht
    generalize ((p.table.pending .partialTemplate).map fun n => (n, found n)).foldl notePartial
      { p with journal } = later at hregistry hjournal hpasses hle ht ⊢
    refine .inl ⟨fun n => (found n).getD ⟨""⟩, _, rfl, ⟨?_, fun n => ?_, fun other ho n => ?_, .refl _, ?_,
      fun e => ?_, hpasses, fun n => ?_, fun _ => hregistry, hle, fun n hm => hall n hm ▸ hout n hm,
      fun n hm hm' => absurd hm hm', fun n => ?_, congrArg Registry.scanned hregistry⟩, fun n hm => ?_⟩
    · cases p.table.pending .partialTemplate <;> simp
    · rw [ht, if_pos rfl]
      split
      · rename_i hm
        rw [hall n hm, SymbolTable.mem_pending.mp hm]
        rfl
      · rfl
    · rw [ht, if_neg ho, ite_self]
      exact (if_neg fun h => SymbolKind.noConfusion h.1.1).symm
    · rw [hjournal]
      exact hsearches
    · rw [hjournal, hnil e]
      exact .refl _
    · simp [hregistry]
    · simp [hregistry]
    · dsimp only [foundPartial]
      rw [hjournal, ← hfinds n hm, hall n hm]
      rfl

/-- The stage, with the message that it begins with. -/
theorem searchPartials_enter_spec (stage : String) (p : Progress) :
    let names := p.table.pending .partialTemplate
    let result := job.searchPartials (job.enter stage p)
    (∃ (place : String → Path) (anything : Bool), result.1 = .ok anything ∧
      p.Searched job.plan .partialTemplate names (fun n => some (place n)) anything result.2 ∧
      ∀ n ∈ names, job.foundPartial result.2 n) ∨
    ∃ name, result.1 = .error (.partialNotFound name (job.suggest name)) ∧
      PartialsSearched names p result.2 ∧ job.GivenUp names result.2 name := by
  rcases job.searchPartials_spec (job.enter stage p) with
    ⟨found, anything, hr, h, hall⟩ | ⟨name, hr, h, hfirst⟩
  · exact .inl ⟨found, anything, hr, h.ofTold (job.enter_told _ _), hall⟩
  · exact .inr ⟨name, hr, h.ofTold (job.enter_told _ _), hfirst⟩

end Job

end Stache
