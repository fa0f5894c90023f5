import Stache.Proofs.Job.Partials

/-!
# A round

A round is a pass, followed by the three stages that search. The states between the stages have names
here, and `round_ends` tells what a round comes to: the template is rejected, a partial is nowhere, or
there is code.

* `pending_of_coded` -- after a round that ends with code nothing waits to be searched;
* `round_of_nothing` -- a round that finds nothing leaves all paths as its pass read them;
* `known_of_coded` -- where the helpers come from that become known;
* `round_of_unsearched` -- a round that has nobody to look for makes no search.
-/

namespace Stache

namespace Job

variable (job : Job) (source : String) (p : Progress)

/-! ## 1. The states between the stages -/

/-- The state in which the pass begins. -/
def begun : Progress :=
  let p := job.enter "Compiling" { p with passes := p.passes + 1 }
  p.logIf job.config.debug .debug
    ("Compilation pass " ++ toString p.passes ++ " for " ++ job.name)

/-- The state after the pass. -/
def compiled : Progress :=
  (job.compile source (job.begun p)).2

/-- The outcome of the search for helpers. -/
def helpersSearched : Bool × Progress :=
  job.searchHelpers (job.enter "ResolvingHelpers" (job.compiled source p))

/-- The outcome of the search for ambiguous names. -/
def ambiguousSearched : Bool × Progress :=
  job.searchAmbiguous (job.enter "ResolvingAmbiguous" (job.helpersSearched source p).2)

/-- The outcome of the search for partials. -/
def partialsSearched : Except LoadError Bool × Progress :=
  job.searchPartials (job.enter "ResolvingPartials" (job.ambiguousSearched source p).2)

/-- A round, stage by stage. -/
theorem round_eq : job.round source p =
    match (job.compile source (job.begun p)).1 with
    | .error error => (.error error, job.compiled source p)
    | .ok code =>
      match (job.partialsSearched source p).1 with
      | .error error => (.error error, (job.partialsSearched source p).2)
      | .ok anything =>
        (.ok (code, (job.helpersSearched source p).1 || (job.ambiguousSearched source p).1 || anything),
          (job.partialsSearched source p).2) := by
  unfold round partialsSearched ambiguousSearched helpersSearched compiled begun
  dsimp only
  generalize job.compile source _ = pass
  obtain ⟨_ | code, c⟩ := pass
  · rfl
  · dsimp only
    generalize job.searchAmbiguous (job.enter "ResolvingAmbiguous"
      (job.searchHelpers (job.enter "ResolvingHelpers" c)).2) = a
    obtain ⟨_ | anything, later⟩ := job.searchPartials (job.enter "ResolvingPartials" a.2)
    · rfl
    · rfl

/-! ## 2. The stages -/

/-- The entries that the pass of a round asks about. -/
def entries : List (SymbolKind × String) :=
  (job.references source (job.begun p)).filterMap (Reference.symbol? p.registry)

/-- The pass notes what it asks about. -/
theorem compiled_spec :
    (job.compiled source p).table = p.table.noteAll p.registry (job.references source (job.begun p)) ∧
      (job.compiled source p).registry = p.registry ∧
      (job.compiled source p).passes = p.passes + 1 ∧
      (job.compiled source p).journal.Agrees p.journal := by
  obtain ⟨ht, hq⟩ := job.compile_spec source (job.begun p)
  have hj : (job.begun p).journal.Agrees p.journal :=
    (Journal.Agrees.logIf _ _ _ _).trans (.log _ _ _)
  exact ⟨ht, hq.registry, hq.passes, hq.journal.trans hj⟩

/-- The table after the pass, name by name. -/
theorem get?_compiled (kind : SymbolKind) (n : String) :
    (job.compiled source p).table.get? kind n =
      if (kind, n) ∈ job.entries source p then
        some (p.registry.seen kind n (p.table.get? kind n))
      else p.table.get? kind n := by
  rw [(job.compiled_spec source p).1, SymbolTable.get?_noteAll]
  rfl

theorem helpersSearched_spec :
    ∃ found, (job.compiled source p).Searched job.plan .helper
      ((job.compiled source p).table.pending .helper) found (job.helpersSearched source p).1
      (job.helpersSearched source p).2 := by
  obtain ⟨found, h⟩ := job.searchHelpers_spec (job.enter "ResolvingHelpers" (job.compiled source p))
  exact ⟨found, h.ofTold (job.enter_told _ _)⟩

theorem ambiguousSearched_spec :
    ∃ found, (job.helpersSearched source p).2.Searched job.plan .ambiguous
      (unsearched (job.helpersSearched source p).2.table) found
      (job.ambiguousSearched source p).1 (job.ambiguousSearched source p).2 := by
  obtain ⟨found, h⟩ :=
    job.searchAmbiguous_spec (job.enter "ResolvingAmbiguous" (job.helpersSearched source p).2)
  exact ⟨found, h.ofTold (job.enter_told _ _)⟩

/-! ## 3. The end of a round -/

/-- What a round may come to. -/
inductive RoundEnds : Except LoadError (String × Bool) × Progress → Prop where
  /-- The template is rejected. -/
  | rejected {error : LoadError} (compile : (job.compile source (job.begun p)).1 = .error error) :
    RoundEnds (.error error, job.compiled source p)
  /-- Some partials are nowhere, and one of them is given up first. -/
  | missing {code : String} (compile : (job.compile source (job.begun p)).1 = .ok code)
    {name : String} {later : Progress}
    (searched : PartialsSearched
      ((job.ambiguousSearched source p).2.table.pending .partialTemplate)
      (job.ambiguousSearched source p).2 later)
    (givenUp : job.GivenUp ((job.ambiguousSearched source p).2.table.pending .partialTemplate)
      later name) :
    RoundEnds (.error (.partialNotFound name (job.suggest name)), later)
  /-- There is code, and every partial was found. -/
  | coded {code : String} (compile : (job.compile source (job.begun p)).1 = .ok code)
    {place : String → Path} {anything : Bool} {later : Progress}
    (searched : (job.ambiguousSearched source p).2.Searched job.plan .partialTemplate
      ((job.ambiguousSearched source p).2.table.pending .partialTemplate)
      (fun n => some (place n)) anything later)
    (found : ∀ n ∈ (job.ambiguousSearched source p).2.table.pending .partialTemplate,
      job.foundPartial later n) :
    RoundEnds (.ok (code, (job.helpersSearched source p).1 || (job.ambiguousSearched source p).1 ||
      anything), later)

/-- **A round comes to one of these ends.** -/
theorem round_ends : job.RoundEnds source p (job.round source p) := by
  rw [round_eq]
  cases hc : (job.compile source (job.begun p)).1 with
  | error error => exact .rejected hc
  | ok code =>
    dsimp only
    rcases job.searchPartials_enter_spec "ResolvingPartials" (job.ambiguousSearched source p).2 with
      ⟨found, anything, hr, h, hall⟩ | ⟨name, hr, h, hfirst⟩
    · rw [partialsSearched, hr]
      exact .coded hc h hall
    · rw [partialsSearched, hr]
      exact .missing hc h hfirst

-- from here on the states are known by what was said of them
attribute [irreducible] compiled helpersSearched ambiguousSearched partialsSearched

/-! ## 4. The table -/

theorem le_compiled : p.table ≤ (job.compiled source p).table := by
  rw [(job.compiled_spec source p).1]
  exact p.table.le_noteAll _ _

theorem le_helpersSearched : p.table ≤ (job.helpersSearched source p).2.table := by
  obtain ⟨_, h⟩ := job.helpersSearched_spec source p
  exact le_trans (job.le_compiled source p) h.le

theorem le_ambiguousSearched : p.table ≤ (job.ambiguousSearched source p).2.table := by
  obtain ⟨_, h⟩ := job.ambiguousSearched_spec source p
  exact le_trans (job.le_helpersSearched source p) h.le

/-- What the pass recorded stays recorded, whatever the round comes to. -/
theorem compiled_le_round : (job.compiled source p).table ≤ (job.round source p).2.table := by
  obtain ⟨_, hh⟩ := job.helpersSearched_spec source p
  obtain ⟨_, ha⟩ := job.ambiguousSearched_spec source p
  have hle := le_trans hh.le ha.le
  have ends := job.round_ends source p
  generalize job.round source p = result at ends ⊢
  cases ends with
  | rejected => exact le_refl _
  | missing _ searched => exact le_of_le_of_eq hle searched.table.symm
  | coded _ searched => exact le_trans hle searched.le

/-- A round is counted when it begins. -/
theorem passes_round : (job.round source p).2.passes = p.passes + 1 := by
  have ends := job.round_ends source p
  obtain ⟨_, hh⟩ := job.helpersSearched_spec source p
  obtain ⟨_, ha⟩ := job.ambiguousSearched_spec source p
  have hc := (job.compiled_spec source p).2.2.1
  have hp := (ha.passes.trans hh.passes).trans hc
  generalize job.round source p = result at ends ⊢
  cases ends with
  | rejected => exact hc
  | missing _ searched => exact searched.passes.trans hp
  | coded _ searched => exact searched.passes.trans hp

variable {job source p}

theorem compile_of_coded {code : String} {anything : Bool} {later : Progress}
    (h : job.round source p = (.ok (code, anything), later)) :
    (job.compile source (job.begun p)).1 = .ok code := by
  have ends := job.round_ends source p
  rw [h] at ends
  cases ends with
  | coded compile => exact compile

/-- **Nothing is pending after a round** that ends with code. -/
theorem pending_of_coded {code : String} {anything : Bool} {later : Progress}
    (h : job.round source p = (.ok (code, anything), later)) (kind : SymbolKind) :
    later.table.pending kind = [] := by
  have ends := job.round_ends source p
  rw [h] at ends
  cases ends with
  | coded _ searched =>
    obtain ⟨_, hh⟩ := job.helpersSearched_spec source p
    obtain ⟨_, ha⟩ := job.ambiguousSearched_spec source p
    cases kind with
    | partialTemplate => exact searched.pending_eq_nil
    | helper => exact searched.pending_eq_nil_of (ha.pending_eq_nil_of hh.pending_eq_nil)
    | ambiguous => exact searched.pending_eq_nil_of ha.pending_eq_nil

/-- **A round that finds nothing** leaves the registry as it was, and every path as its pass read it. -/
theorem round_of_nothing {code : String} {anything : Bool} {later : Progress}
    (h : job.round source p = (.ok (code, anything), later)) (hn : anything = false) :
    (job.compile source (job.begun p)).1 = .ok code ∧ later.registry = p.registry ∧
      (job.compiled source p).table ≤ later.table ∧
      ∀ kind n, later.table.path? kind n = (job.compiled source p).table.path? kind n := by
  have ends := job.round_ends source p
  rw [h] at ends
  obtain ⟨_, hh⟩ := job.helpersSearched_spec source p
  obtain ⟨_, ha⟩ := job.ambiguousSearched_spec source p
  have hc := (job.compiled_spec source p).2.1
  cases ends with
  | coded compile searched =>
    simp only [Bool.or_eq_false_iff] at hn
    obtain ⟨⟨h₁, h₂⟩, rfl⟩ := hn
    rw [h₁] at hh
    rw [h₂] at ha
    refine ⟨compile, ?_, le_trans hh.le (le_trans ha.le searched.le), fun kind n => ?_⟩
    · rw [searched.registry_eq, ha.registry_eq, hh.registry_eq, hc]
    · rw [searched.path?_eq, ha.path?_eq, hh.path?_eq]

/-! ## 5. The known helpers -/

/-- What is known stays known. -/
theorem known_round {result : Except LoadError (String × Bool)} {later : Progress}
    (h : job.round source p = (result, later)) {n : String} (hn : n ∈ p.registry.known) :
    n ∈ later.registry.known := by
  have ends := job.round_ends source p
  rw [h] at ends
  obtain ⟨_, hh⟩ := job.helpersSearched_spec source p
  obtain ⟨_, ha⟩ := job.ambiguousSearched_spec source p
  have hc : n ∈ (job.compiled source p).registry.known := by
    rwa [(job.compiled_spec source p).2.1]
  have hr := (ha.known n).mpr (.inl ((hh.known n).mpr (.inl hc)))
  cases ends with
  | rejected => exact hc
  | missing _ searched => rwa [searched.registry]
  | coded _ searched => exact (searched.known n).mpr (.inl hr)

/-- **What becomes known** was pending as a helper or as an ambiguous name, and was searched as a
    helper. -/
theorem known_of_coded {code : String} {anything : Bool} {later : Progress}
    (h : job.round source p = (.ok (code, anything), later)) {n : String}
    (hn : n ∈ later.registry.known) : n ∈ p.registry.known ∨
      later.table.isAttempted .helper n = true ∧
        (n ∈ (job.compiled source p).table.pending .helper ∨
          n ∈ (job.compiled source p).table.pending .ambiguous) := by
  have ends := job.round_ends source p
  rw [h] at ends
  obtain ⟨_, hh⟩ := job.helpersSearched_spec source p
  obtain ⟨found, ha⟩ := job.ambiguousSearched_spec source p
  cases ends with
  | coded _ searched =>
    rcases (searched.known n).mp hn with hn | ⟨hk, _⟩
    · rcases (ha.known n).mp hn with hn | ⟨_, hm, hf⟩
      · rcases (hh.known n).mp hn with hn | ⟨_, hm, _⟩
        · rw [(job.compiled_spec source p).2.1] at hn
          exact .inl hn
        · exact .inr ⟨SymbolTable.isAttempted_of_le (le_trans ha.le searched.le)
            (hh.isAttempted hm), .inl hm⟩
      · have hm := ha.sublist.subset hm
        have hl : (job.ambiguousSearched source p).2.table.isAttempted .helper n = true := by
          rw [SymbolTable.isAttempted_eq, ha.others .helper nofun, if_pos ⟨⟨rfl, rfl⟩, hm, hf⟩]
          cases found n <;> rfl
        exact .inr ⟨SymbolTable.isAttempted_of_le searched.le hl,
          .inr (hh.pending_of_pending hm)⟩
    · exact absurd rfl hk

/-! ## 6. A round without searches -/

/-- What is pending after a pass was asked about, and nothing was known of it. -/
theorem pending_compiled (hp : ∀ kind, p.table.pending kind = []) {kind : SymbolKind} {n : String}
    (h : n ∈ (job.compiled source p).table.pending kind) :
    (kind, n) ∈ job.entries source p ∧ p.table.get? kind n = none := by
  have hn : p.table.get? kind n ≠ some .pending := fun e => by
    have := SymbolTable.mem_pending.mpr e
    rw [hp] at this
    cases this
  rw [SymbolTable.mem_pending, get?_compiled] at h
  split at h
  · rename_i hm
    exact ⟨hm, (p.registry.seen_eq_pending n (Option.some.inj h)).resolve_right hn⟩
  · exact absurd h hn

/-- **A round that has nobody to look for** finds no partial missing, makes no search, and leaves the
    registry as it was. If no ambiguous name is pending either, it finds nothing. -/
theorem round_of_unsearched {code : String}
    (hc : (job.compile source (job.begun p)).1 = .ok code)
    (hh : (job.compiled source p).table.pending .helper = [])
    (ha : ∀ n ∈ (job.compiled source p).table.pending .ambiguous,
      (job.compiled source p).table.isAttempted .helper n = true)
    (hp : (job.compiled source p).table.pending .partialTemplate = []) :
    ∃ anything later, job.round source p = (.ok (code, anything), later) ∧
      later.registry = p.registry ∧ later.journal.Agrees p.journal ∧
      ((job.compiled source p).table.pending .ambiguous = [] → anything = false) := by
  obtain ⟨_, hreg, _, hj⟩ := job.compiled_spec source p
  obtain ⟨found₁, h₁⟩ := job.helpersSearched_spec source p
  obtain ⟨found₂, h₂⟩ := job.ambiguousSearched_spec source p
  have hu : unsearched (job.helpersSearched source p).2.table = [] := by
    refine List.eq_nil_iff_forall_not_mem.mpr fun n hm => ?_
    have hn := h₁.pending_of_pending (h₂.sublist.subset hm)
    have := SymbolTable.isAttempted_of_le h₁.le (ha n hn)
    rw [(mem_unsearched.mp hm).2] at this
    cases this
  have hr := h₂.pending_eq_nil_of (h₁.pending_eq_nil_of hp)
  have ends := job.round_ends source p
  generalize job.round source p = result at ends
  cases ends with
  | rejected compile =>
    rw [hc] at compile
    cases compile
  | missing _ _ givenUp =>
    have hm := givenUp.mem
    rw [hr] at hm
    cases hm
  | coded compile searched =>
    rw [hc] at compile
    cases compile
    refine ⟨_, _, rfl, ?_, ?_, fun hn => ?_⟩
    · rw [searched.registry (by rw [hr]; nofun), h₂.registry (by rw [hu]; nofun),
        h₁.registry (by rw [hh]; nofun), hreg]
    · exact (searched.quiet hr).trans ((h₂.quiet hu).trans ((h₁.quiet hh).trans hj))
    · rw [h₁.anything_eq_false hh, h₂.anything_eq_false (h₁.pending_eq_nil_of hn),
        searched.anything_eq_false hr]
      rfl

end Job

end Stache
