import Stache.Proofs.Job.Settled

/-!
# The account of a run

Once a round has ended with code, the table and the registry are accounted for by three things: what was
asked about, where the helpers are, and where the partials are.

* `Progress.Accounts` -- the account, name by name: a helper that the registry had found keeps its place,
  any other name was looked for once, as a helper if it was asked about as one;
* `accounts_first` -- the first round has an account, and its searches are of different names;
* `accounts_later` -- a later round that asks about no new helper and no new partial only adds ambiguous
  names, at the places of their helpers;
* `accounts_of_settle` -- a settled template has an account of what its last pass asked about;
* `settled_table` -- what all this comes to for the table of a settled template.
-/

namespace Stache

namespace Progress

/-- The state is accounted for: `asked` are the symbols that were asked about since the registry was
    `registry`, `place` tells where helpers and ambiguous names are, and `file` where partials are. -/
structure Accounts (plan : SearchPlan) (registry : Registry) (asked : List (SymbolKind × String))
    (place : String → Option Path) (file : String → Path) (p : Progress) : Prop where
  partials : ∀ n, p.table.get? .partialTemplate n =
    if (.partialTemplate, n) ∈ asked then some (.resolved (file n)) else none
  helpers : ∀ n, p.table.get? .helper n =
    if (.helper, n) ∈ asked ∨ (.ambiguous, n) ∈ asked ∧ (place n).isSome = true then
      some (.ofSearch (place n))
    else none
  ambiguous : ∀ n, p.table.get? .ambiguous n =
    if (.ambiguous, n) ∈ asked then some (.ofSearch (place n)) else none
  paths : ∀ n, p.registry.path? n =
    if (.helper, n) ∈ asked ∨ (.ambiguous, n) ∈ asked then (place n).or (registry.path? n)
    else registry.path? n
  known : ∀ n, n ∈ p.registry.known ↔
    n ∈ registry.known ∨ (.helper, n) ∈ asked ∧ (place n).isSome = true
  given : ∀ n path, (.helper, n) ∈ asked → registry.path? n = some path → place n = some path
  helper : ∀ n, (.helper, n) ∈ asked → registry.path? n = none → plan.Outcome .helper n (place n)
  member : ∀ n, (.helper, n) ∉ asked → (.ambiguous, n) ∈ asked → plan.Outcome .ambiguous n (place n)
  found : ∀ n, (.partialTemplate, n) ∈ asked → plan.Outcome .partialTemplate n (some (file n))

/-- Where there is an account, nothing is pending. -/
theorem Accounts.not_pending {plan : SearchPlan} {registry : Registry}
    {asked : List (SymbolKind × String)} {place : String → Option Path} {file : String → Path}
    {p : Progress} (h : p.Accounts plan registry asked place file) (kind : SymbolKind) (n : String) :
    p.table.get? kind n ≠ some .pending := by
  cases kind with
  | partialTemplate =>
    rw [h.partials]
    split <;> simp
  | helper =>
    rw [h.helpers]
    cases place n <;> split <;> simp [Resolution.ofSearch]
  | ambiguous =>
    rw [h.ambiguous]
    cases place n <;> split <;> simp [Resolution.ofSearch]

/-- It is no matter how often and in which order something was asked about. -/
theorem Accounts.congr {plan : SearchPlan} {registry : Registry}
    {asked again : List (SymbolKind × String)} {place : String → Option Path} {file : String → Path}
    {p : Progress} (h : p.Accounts plan registry asked place file)
    (he : ∀ entry, entry ∈ asked ↔ entry ∈ again) :
    p.Accounts plan registry again place file := by
  constructor
  case partials => simpa only [he] using h.partials
  case helpers => simpa only [he] using h.helpers
  case ambiguous => simpa only [he] using h.ambiguous
  case paths => simpa only [he] using h.paths
  case known => simpa only [he] using h.known
  case given => simpa only [he] using h.given
  case helper => simpa only [he] using h.helper
  case member => simpa only [he] using h.member
  case found => simpa only [he] using h.found

/-- A message is no matter to an account. -/
theorem Accounts.ofTold {plan : SearchPlan} {registry : Registry}
    {asked : List (SymbolKind × String)} {place : String → Option Path} {file : String → Path}
    {p q : Progress} (h : p.Accounts plan registry asked place file) (hq : p.Told q) :
    q.Accounts plan registry asked place file where
  partials := hq.table ▸ h.partials
  helpers := hq.table ▸ h.helpers
  ambiguous := hq.table ▸ h.ambiguous
  paths := hq.registry ▸ h.paths
  known := hq.registry ▸ h.known
  given := h.given
  helper := h.helper
  member := h.member
  found := h.found

end Progress

namespace Job

/-! ## 1. The first round -/

/-- The place of a helper or an ambiguous name after the first round: where the registry or the search for
    helpers has it, if it was asked about as a helper, and else where the search for ambiguous names found
    it. -/
def firstPlace (asked : List (SymbolKind × String)) (registry : Registry)
    (helper member : String → Option Path) (n : String) : Option Path :=
  if (.helper, n) ∈ asked then (registry.path? n).or (helper n) else member n

/-- The stages of a round that begins without a table: `c` is the state after the pass, which asked about
    `asked`, and each stage leaves the state that the next begins with. -/
structure FirstStages (plan : SearchPlan) (registry : Registry) (asked : List (SymbolKind × String))
    (found₁ found₂ : String → Option Path) (file : String → Path) (c m a later : Progress) : Prop where
  noted : ∀ kind n, c.table.get? kind n =
    if (kind, n) ∈ asked then some (registry.seen kind n none) else none
  unchanged : c.registry = registry
  known : ∀ n, (.ambiguous, n) ∈ asked → n ∈ registry.known
  helpers : ∃ anything, c.Searched plan .helper (c.table.pending .helper) found₁ anything m
  members : ∃ anything, m.Searched plan .ambiguous (unsearched m.table) found₂ anything a
  partials : ∃ anything, a.Searched plan .partialTemplate (a.table.pending .partialTemplate)
    (fun n => some (file n)) anything later

namespace FirstStages

variable {plan : SearchPlan} {registry : Registry} {asked : List (SymbolKind × String)}
  {found₁ found₂ : String → Option Path} {file : String → Path} {c m a later : Progress}

/-- The pass leaves those helpers pending that the registry has not found. -/
theorem mem_pendingHelpers (h : FirstStages plan registry asked found₁ found₂ file c m a later)
    {n : String} :
    n ∈ c.table.pending .helper ↔ (.helper, n) ∈ asked ∧ registry.path? n = none := by
  rw [SymbolTable.mem_pending, h.noted]
  split
  · rename_i he
    cases hr : registry.path? n <;> simp [Registry.seen, hr, he, Resolution.found]
  · rename_i he
    simp [he]

/-- The helpers after they were looked for. -/
theorem get?_helper (h : FirstStages plan registry asked found₁ found₂ file c m a later)
    (n : String) :
    m.table.get? .helper n =
      if (.helper, n) ∈ asked then some (.ofSearch ((registry.path? n).or (found₁ n)))
      else none := by
  obtain ⟨_, h₁⟩ := h.helpers
  rw [h₁.own]
  by_cases hm : n ∈ c.table.pending .helper
  · obtain ⟨he, hr⟩ := h.mem_pendingHelpers.mp hm
    rw [if_pos hm, if_pos he, hr, Option.none_or]
  · rw [if_neg hm, h.noted]
    split
    · rename_i he
      cases hr : registry.path? n with
      | none => exact absurd (h.mem_pendingHelpers.mpr ⟨he, hr⟩) hm
      | some path => simp [Registry.seen, hr, Resolution.found, Resolution.ofSearch]
    · rfl

/-- The ambiguous names when the helpers were looked for: all that were asked about are pending. -/
theorem get?_ambiguous (h : FirstStages plan registry asked found₁ found₂ file c m a later)
    (n : String) :
    m.table.get? .ambiguous n = if (.ambiguous, n) ∈ asked then some .pending else none := by
  obtain ⟨_, h₁⟩ := h.helpers
  rw [h₁.others .ambiguous nofun, if_neg fun h => SymbolKind.noConfusion h.1.1, h.noted]
  rfl

theorem mem_pendingAmbiguous (h : FirstStages plan registry asked found₁ found₂ file c m a later)
    {n : String} : n ∈ m.table.pending .ambiguous ↔ (.ambiguous, n) ∈ asked := by
  rw [SymbolTable.mem_pending, h.get?_ambiguous]
  split
  · rename_i he
    simp [he]
  · rename_i he
    simp [he]

/-- Only those ambiguous names are looked for that were not asked about as helpers. -/
theorem mem_unsearched (h : FirstStages plan registry asked found₁ found₂ file c m a later)
    {n : String} :
    n ∈ unsearched m.table ↔ (.ambiguous, n) ∈ asked ∧ (.helper, n) ∉ asked := by
  have hattempted : m.table.isAttempted .helper n = true ↔ (.helper, n) ∈ asked := by
    rw [SymbolTable.isAttempted_eq, h.get?_helper]
    split
    · rename_i he
      cases (registry.path? n).or (found₁ n) <;> simp [he, Resolution.ofSearch, Resolution.attempted]
    · rename_i he
      simp [he]
  rw [Job.mem_unsearched, ← SymbolTable.mem_pending, h.mem_pendingAmbiguous, ← hattempted,
    Bool.not_eq_true]

/-- The others take the places of the helpers. -/
theorem found_member (h : FirstStages plan registry asked found₁ found₂ file c m a later)
    {n : String} (hm : (.ambiguous, n) ∈ asked) :
    found₂ n = firstPlace asked registry found₁ found₂ n := by
  obtain ⟨_, h₂⟩ := h.members
  unfold firstPlace
  split
  · rename_i he
    rw [h₂.taken n (h.mem_pendingAmbiguous.mpr hm) fun hu => (h.mem_unsearched.mp hu).2 he,
      SymbolTable.path?_eq, h.get?_helper, if_pos he]
    cases (registry.path? n).or (found₁ n) <;> rfl
  · rfl

theorem get?_partial (h : FirstStages plan registry asked found₁ found₂ file c m a later)
    (n : String) : a.table.get? .partialTemplate n =
      if (.partialTemplate, n) ∈ asked then some .pending else none := by
  obtain ⟨_, h₁⟩ := h.helpers
  obtain ⟨_, h₂⟩ := h.members
  rw [h₂.others .partialTemplate nofun, if_neg fun h => SymbolKind.noConfusion h.1.2,
    h₁.others .partialTemplate nofun, if_neg fun h => SymbolKind.noConfusion h.1.1, h.noted]
  rfl

theorem mem_pendingPartials (h : FirstStages plan registry asked found₁ found₂ file c m a later)
    {n : String} :
    n ∈ a.table.pending .partialTemplate ↔ (.partialTemplate, n) ∈ asked := by
  rw [SymbolTable.mem_pending, h.get?_partial]
  split
  · rename_i he
    simp [he]
  · rename_i he
    simp [he]

/-- **The stages of a first round have an account.** -/
theorem accounts (h : FirstStages plan registry asked found₁ found₂ file c m a later) :
    later.Accounts plan registry asked (firstPlace asked registry found₁ found₂) file := by
  obtain ⟨_, h₁⟩ := h.helpers
  obtain ⟨_, h₂⟩ := h.members
  obtain ⟨_, h₃⟩ := h.partials
  have hplace {n : String} (he : (.helper, n) ∈ asked) :
      firstPlace asked registry found₁ found₂ n = (registry.path? n).or (found₁ n) := by
    rw [firstPlace, if_pos he]
  constructor
  case partials =>
    intro n
    simp only [h₃.own, h.mem_pendingPartials, h.get?_partial]
    split
    · rfl
    · rfl
  case helpers =>
    intro n
    rw [h₃.others .helper nofun, if_neg fun h => SymbolKind.noConfusion h.1.1,
      h₂.others .helper nofun]
    simp only [h.mem_pendingAmbiguous, h.get?_helper, and_self, true_and]
    by_cases he : (.helper, n) ∈ asked
    · rw [if_pos he, if_pos (Or.inl he), hplace he]
      split
      · rename_i hm
        rw [h.found_member hm.1, hplace he]
      · rfl
    · by_cases hm : (.ambiguous, n) ∈ asked
      · simp [he, hm, h.found_member hm]
      · simp [he, hm]
  case ambiguous =>
    intro n
    rw [h₃.others .ambiguous nofun, if_neg fun h => SymbolKind.noConfusion h.1.1, h₂.own]
    simp only [h.mem_pendingAmbiguous, h.get?_ambiguous]
    split
    · rename_i hm
      rw [h.found_member hm]
    · rfl
  case paths =>
    intro n
    rw [h₃.paths, if_neg fun h => h.1 rfl, h₂.paths, h₁.paths, h.unchanged]
    simp only [h.mem_unsearched, h.mem_pendingHelpers]
    by_cases he : (.helper, n) ∈ asked
    · rw [hplace he]
      cases hr : registry.path? n <;> simp [he]
    · by_cases hm : (.ambiguous, n) ∈ asked
      · simp [he, hm, h.found_member hm]
      · simp [he, hm]
  case known =>
    intro n
    rw [h₃.known, h₂.known, h₁.known, h.unchanged, h.mem_unsearched, h.mem_pendingHelpers]
    constructor
    · rintro (((hn | ⟨_, ⟨he, hr⟩, hf⟩) | ⟨_, ⟨hm, _⟩, _⟩) | ⟨hk, _⟩)
      · exact .inl hn
      · exact .inr ⟨he, by rw [hplace he, hr, Option.none_or]; exact hf⟩
      · exact .inl (h.known n hm)
      · exact absurd rfl hk
    · rintro (hn | ⟨he, hf⟩)
      · exact .inl (.inl (.inl hn))
      · cases hr : registry.path? n with
        | none =>
          rw [hplace he, hr, Option.none_or] at hf
          exact .inl (.inl (.inr ⟨nofun, ⟨he, rfl⟩, hf⟩))
        | some path =>
          have hn : n ∈ registry.found := by
            rw [Std.ExtTreeMap.mem_iff_isSome_getElem?, ← Registry.path?, hr]
            rfl
          exact .inl (.inl (.inl (registry.known_of_found n hn)))
  case given =>
    intro n path he hr
    rw [hplace he, hr, Option.some_or]
  case helper =>
    intro n he hr
    rw [hplace he, hr, Option.none_or]
    exact h₁.outcome n (h.mem_pendingHelpers.mpr ⟨he, hr⟩)
  case member =>
    intro n he hm
    rw [← h.found_member hm]
    exact h₂.outcome n (h.mem_unsearched.mpr ⟨hm, he⟩)
  case found =>
    intro n he
    exact h₃.outcome n (h.mem_pendingPartials.mpr he)

/-- The names that the stages look for: none both as a helper and as an ambiguous name. -/
theorem searches (h : FirstStages plan registry asked found₁ found₂ file c m a later) :
    ∃ helpers members partials : List String, later.journal.searches = c.journal.searches ++
        (helpers.map (.helper, ·) ++ members.map (.ambiguous, ·) ++
          partials.map (.partialTemplate, ·)) ∧
      (helpers ++ members).Nodup ∧ partials.Nodup := by
  obtain ⟨_, h₁⟩ := h.helpers
  obtain ⟨_, h₂⟩ := h.members
  obtain ⟨_, h₃⟩ := h.partials
  refine ⟨c.table.pending .helper, unsearched m.table, a.table.pending .partialTemplate, ?_, ?_,
    a.table.pending_nodup .partialTemplate⟩
  · rw [h₃.searches, h₂.searches, h₁.searches, List.append_assoc, List.append_assoc,
      List.append_assoc]
  · refine List.nodup_append.mpr ⟨c.table.pending_nodup .helper,
      h₂.sublist.nodup (m.table.pending_nodup .ambiguous), ?_⟩
    rintro n hn _ hm rfl
    exact (h.mem_unsearched.mp hm).2 (h.mem_pendingHelpers.mp hn).1

end FirstStages

variable {job : Job} {source : String}

/-- **The first round has an account**, and looks for different names: for no name both as a helper and as
    an ambiguous name, and for no partial twice. -/
theorem accounts_first {registry : Registry} {journal : Journal} {code : String} {anything : Bool}
    {later : Progress}
    (h : job.round source { registry, journal } = (.ok (code, anything), later)) :
    (∃ place file,
      later.Accounts job.plan registry (job.entries source { registry, journal }) place file) ∧
    ∃ helpers members partials : List String, later.journal.searches = journal.searches ++
        (helpers.map (.helper, ·) ++ members.map (.ambiguous, ·) ++
          partials.map (.partialTemplate, ·)) ∧
      (helpers ++ members).Nodup ∧ partials.Nodup := by
  have ends := job.round_ends source { registry, journal }
  rw [h] at ends
  obtain ⟨_, hregistry, _, hjournal⟩ := job.compiled_spec source { registry, journal }
  obtain ⟨found₁, h₁⟩ := job.helpersSearched_spec source { registry, journal }
  obtain ⟨found₂, h₂⟩ := job.ambiguousSearched_spec source { registry, journal }
  cases ends with
  | @coded _ _ file _ _ h₃ _ =>
    have stages : FirstStages job.plan registry (job.entries source { registry, journal }) found₁
        found₂ file _ _ _ later := {
      noted := fun kind n => by rw [get?_compiled, SymbolTable.get?_empty]
      unchanged := hregistry
      known := fun n hm => by
        obtain ⟨reference, _, he⟩ := List.mem_filterMap.mp hm
        exact (Reference.symbol?_ambiguous he).1
      helpers := ⟨_, h₁⟩
      members := ⟨_, h₂⟩
      partials := ⟨_, h₃⟩ }
    have hsearches := stages.searches
    rw [hjournal.searches] at hsearches
    exact ⟨⟨_, _, stages.accounts⟩, hsearches⟩

/-! ## 2. Later rounds -/

section Later

variable {registry : Registry} {asked : List (SymbolKind × String)} {place : String → Option Path}
  {file : String → Path} {q : Progress}

/-- A pass that asks about no new helper and no new partial only leaves ambiguous names pending. -/
theorem get?_compiled_later (h : q.Accounts job.plan registry asked place file)
    (hnew : ∀ kind n, (kind, n) ∈ job.entries source q → (kind, n) ∉ asked →
      kind = .ambiguous ∧ (.helper, n) ∈ asked) (kind : SymbolKind) (n : String) :
    (job.compiled source q).table.get? kind n =
      if (kind, n) ∈ job.entries source q ∧ (kind, n) ∉ asked then some .pending
      else q.table.get? kind n := by
  rw [get?_compiled]
  by_cases he : (kind, n) ∈ job.entries source q
  · by_cases ha : (kind, n) ∈ asked
    · -- what was asked about before is settled, and the registry has nothing to add
      rw [if_pos he, if_neg fun hn => hn.2 ha]
      cases kind with
      | partialTemplate =>
        rw [h.partials, if_pos ha]
        rfl
      | helper =>
        rw [h.helpers, if_pos (Or.inl ha)]
        have hp := h.paths n
        rw [if_pos (Or.inl ha)] at hp
        cases hf : place n with
        | some path => cases hr : q.registry.path? n <;> simp [Registry.seen, hr, Resolution.ofSearch,
            Resolution.found]
        | none =>
          cases hr : registry.path? n with
          | some path =>
            rw [h.given n path ha hr] at hf
            cases hf
          | none =>
            rw [hf, hr, Option.or_none] at hp
            simp [Registry.seen, hp]
      | ambiguous =>
        rw [h.ambiguous, if_pos ha]
        rfl
    · obtain ⟨rfl, _⟩ := hnew kind n he ha
      rw [if_pos he, if_pos ⟨he, ha⟩, h.ambiguous, if_neg ha]
      rfl
  · rw [if_neg he, if_neg fun hn => he hn.1]

/-- What a round that asks about no new helper and no new partial changes: the ambiguous names that it asks
    about take the places of their helpers. -/
theorem round_later (h : q.Accounts job.plan registry asked place file)
    (hnew : ∀ kind n, (kind, n) ∈ job.entries source q → (kind, n) ∉ asked →
      kind = .ambiguous ∧ (.helper, n) ∈ asked) {code : String} {anything : Bool} {later : Progress}
    (hr : job.round source q = (.ok (code, anything), later)) :
    later.registry = q.registry ∧
      (∀ kind ≠ .ambiguous, ∀ n, later.table.get? kind n = q.table.get? kind n) ∧
      ∀ n, later.table.get? .ambiguous n =
        if (.ambiguous, n) ∈ job.entries source q ∧ (.ambiguous, n) ∉ asked then
          some (.ofSearch (place n))
        else q.table.get? .ambiguous n := by
  have ends := job.round_ends source q
  rw [hr] at ends
  have hregistry := (job.compiled_spec source q).2.1
  obtain ⟨found₁, h₁⟩ := job.helpersSearched_spec source q
  obtain ⟨found₂, h₂⟩ := job.ambiguousSearched_spec source q
  have hcompiled := get?_compiled_later h hnew
  have hold (kind : SymbolKind) (hk : kind ≠ .ambiguous) (n : String) :
      (job.compiled source q).table.get? kind n = q.table.get? kind n := by
    rw [hcompiled, if_neg fun hn => hk (hnew kind n hn.1 hn.2).1]
  -- no helper is pending, so that the first search changes nothing
  obtain ⟨hm, hmr⟩ := h₁.eq_of_pending <| List.eq_nil_iff_forall_not_mem.mpr fun n hn => by
    rw [SymbolTable.mem_pending, hold .helper nofun] at hn
    exact h.not_pending .helper n hn
  have hpending (n : String) : n ∈ (job.helpersSearched source q).2.table.pending .ambiguous ↔
      (.ambiguous, n) ∈ job.entries source q ∧ (.ambiguous, n) ∉ asked := by
    rw [hm, SymbolTable.mem_pending, hcompiled]
    split
    · rename_i hn
      simp [hn]
    · rename_i hn
      exact ⟨fun e => absurd e (h.not_pending .ambiguous n), fun e => absurd e hn⟩
  -- nor is an ambiguous name looked for: each has the place of its helper
  have hfound (n : String)
      (hn : n ∈ (job.helpersSearched source q).2.table.pending .ambiguous) :
      (.helper, n) ∈ asked ∧ n ∉ unsearched (job.helpersSearched source q).2.table ∧
        found₂ n = place n := by
    have ha := (hnew _ n ((hpending n).mp hn).1 ((hpending n).mp hn).2).2
    have hplaced : (job.helpersSearched source q).2.table.get? .helper n =
        some (.ofSearch (place n)) := by
      rw [hm, hold .helper nofun, h.helpers, if_pos (Or.inl ha)]
    have hu : n ∉ unsearched (job.helpersSearched source q).2.table := by
      intro hu
      have ht := (mem_unsearched.mp hu).2
      rw [SymbolTable.isAttempted_eq, hplaced] at ht
      cases hf : place n <;> rw [hf] at ht <;> cases ht
    refine ⟨ha, hu, ?_⟩
    rw [h₂.taken n hn hu, SymbolTable.path?_eq, hplaced]
    cases place n <;> rfl
  have har : (job.ambiguousSearched source q).2.registry = q.registry := by
    rw [h₂.registry fun n hn => absurd hn (hfound n (h₂.sublist.subset hn)).2.1, hmr, hregistry]
  have hother (kind : SymbolKind) (hk : kind ≠ .ambiguous) (n : String) :
      (job.ambiguousSearched source q).2.table.get? kind n = q.table.get? kind n := by
    rw [h₂.others kind hk, hm, hold kind hk]
    split
    · rename_i hn
      obtain ⟨⟨_, rfl⟩, hp, _⟩ := hn
      rw [← hm] at hp
      obtain ⟨ha, _, hf⟩ := hfound n hp
      rw [hf, h.helpers, if_pos (Or.inl ha)]
    · rfl
  cases ends with
  | @coded _ _ _ _ _ h₃ _ =>
    -- and no partial is pending
    obtain ⟨ht, hlr⟩ := h₃.eq_of_pending <| List.eq_nil_iff_forall_not_mem.mpr fun n hn => by
      rw [SymbolTable.mem_pending, hother .partialTemplate nofun] at hn
      exact h.not_pending .partialTemplate n hn
    rw [ht, hlr]
    refine ⟨har, hother, fun n => ?_⟩
    rw [h₂.own]
    split
    · rename_i hp
      rw [(hfound n hp).2.2, if_pos ((hpending n).mp hp)]
    · rename_i hp
      rw [hpending] at hp
      rw [hm, hcompiled, if_neg hp, if_neg hp]

/-- **A round that asks about no new helper and no new partial** leaves an account with the same places. -/
theorem accounts_later (h : q.Accounts job.plan registry asked place file)
    (hnew : ∀ kind n, (kind, n) ∈ job.entries source q → (kind, n) ∉ asked →
      kind = .ambiguous ∧ (.helper, n) ∈ asked) {code : String} {anything : Bool} {later : Progress}
    (hr : job.round source q = (.ok (code, anything), later)) :
    later.Accounts job.plan registry (asked ++ job.entries source q) place file := by
  obtain ⟨hregistry, hother, hambiguous⟩ := round_later h hnew hr
  have hkind (kind : SymbolKind) (hk : kind ≠ .ambiguous) (n : String) :
      (kind, n) ∈ asked ++ job.entries source q ↔ (kind, n) ∈ asked := by
    rw [List.mem_append, or_iff_left_of_imp]
    intro he
    exact Classical.byContradiction fun ha => hk (hnew kind n he ha).1
  have hmember (n : String) : (.ambiguous, n) ∈ asked ++ job.entries source q ↔
      (.ambiguous, n) ∈ asked ∨
        (.ambiguous, n) ∈ job.entries source q ∧ (.ambiguous, n) ∉ asked := by
    rw [List.mem_append, or_and_left, and_iff_left (Classical.em _)]
  have hwider (n : String) (hn : (.ambiguous, n) ∈ asked ++ job.entries source q) :
      (.ambiguous, n) ∈ asked ∨ (.helper, n) ∈ asked :=
    ((hmember n).mp hn).imp_right fun hn => (hnew .ambiguous n hn.1 hn.2).2
  constructor
  case partials =>
    intro n
    rw [hother .partialTemplate nofun, h.partials]
    simp only [hkind .partialTemplate nofun]
  case helpers =>
    intro n
    rw [hother .helper nofun, h.helpers]
    simp only [hkind .helper nofun]
    refine ite_congr (propext ⟨.imp_right (.imp_left (List.mem_append_left _)), ?_⟩) (fun _ => rfl)
      fun _ => rfl
    rintro (hn | ⟨hn, hf⟩)
    · exact .inl hn
    · exact (hwider n hn).symm.imp_right (⟨·, hf⟩)
  case ambiguous =>
    intro n
    rw [hambiguous, h.ambiguous]
    simp only [hmember]
    by_cases hn : (.ambiguous, n) ∈ asked
    · simp [hn]
    · simp [hn]
  case paths =>
    intro n
    rw [hregistry, h.paths]
    simp only [hkind .helper nofun]
    refine ite_congr (propext ⟨.imp_right (List.mem_append_left _), ?_⟩) (fun _ => rfl) fun _ => rfl
    rintro (hn | hn)
    · exact .inl hn
    · exact (hwider n hn).symm
  case known =>
    intro n
    rw [hregistry, h.known, hkind .helper nofun]
  case given =>
    intro n path hn
    exact h.given n path ((hkind .helper nofun n).mp hn)
  case helper =>
    intro n hn
    exact h.helper n ((hkind .helper nofun n).mp hn)
  case member =>
    intro n hn ha
    rw [hkind .helper nofun] at hn
    exact h.member n hn ((hwider n ha).resolve_right hn)
  case found =>
    intro n hn
    exact h.found n ((hkind .partialTemplate nofun n).mp hn)

end Later

/-! ## 3. A run -/

section Run

variable {plan : SearchPlan} {name : String} {suggest : String → List String} {registry : Registry}

/-- Of a template whose helpers became known a pass asks what it asked before; new are ambiguous names of
    helpers that became known. -/
theorem entries_grown {p q : Progress} (ho : plan.config.knownHelpersOnly = false)
    (hs : (passOutline (hintsIn plan p) source).fault = none)
    (hk : ∀ n ∈ p.registry.known, n ∈ q.registry.known) :
    (∀ kind n, (kind, n) ∈ (ofTemplate plan name suggest).entries source p →
      (kind, n) ∈ (ofTemplate plan name suggest).entries source q) ∧
    ∀ kind n, (kind, n) ∈ (ofTemplate plan name suggest).entries source q →
      (kind, n) ∉ (ofTemplate plan name suggest).entries source p →
      kind = .ambiguous ∧ n ∈ q.registry.known ∧ n ∉ p.registry.known := by
  have grown : (hintsIn plan p).Grown (hintsIn plan q) := ⟨ho, ho, hk⟩
  have ht := thinner_passOutline grown hs
  constructor
  · intro kind n he
    rw [entries_ofTemplate] at he
    obtain ⟨reference, hr, he⟩ := List.mem_filterMap.mp he
    -- what is written down is no member without the name of a known helper, so it is still asked about
    have hm : reference.isPlainMember (hintsIn plan p).known = false := by
      rcases reference with ⟨_ | _ | _ | _, base, other⟩ | value | text
      case symbol.context =>
        simp only [Reference.symbol?, Option.ite_none_right_eq_some] at he
        have hc : (hintsIn plan p).known.contains other = true :=
          Std.ExtTreeSet.mem_iff_contains.mp he.1
        rw [Reference.isPlainMember, hc]
        rfl
      all_goals rfl
    refine entry_of_asked name suggest ((ht.mem_iff hm).mpr hr) ?_
    by_cases ha : kind = .ambiguous
    · subst ha
      obtain ⟨hn, hold⟩ := Reference.symbol?_ambiguous he
      exact hold _ (hk n hn)
    · exact Reference.symbol?_of_ne_ambiguous he ha _
  · intro kind n he hn
    rw [entries_ofTemplate] at he
    obtain ⟨reference, hr, he⟩ := List.mem_filterMap.mp he
    have hr := ht.sublist.subset hr
    by_cases ha : kind = .ambiguous
    · subst ha
      obtain ⟨hq, hold⟩ := Reference.symbol?_ambiguous he
      exact ⟨rfl, hq, fun hp => hn (entry_of_asked name suggest hr (hold _ hp))⟩
    · exact absurd (entry_of_asked name suggest hr (Reference.symbol?_of_ne_ambiguous he ha _)) hn

/-- What a pass of a template asks about depends on the known helpers only. -/
theorem entries_congr {p q : Progress} (hk : q.registry.known = p.registry.known) :
    (ofTemplate plan name suggest).entries source q =
      (ofTemplate plan name suggest).entries source p := by
  rw [entries_ofTemplate, entries_ofTemplate, hintsIn, hk, ← hintsIn, Reference.symbol?_congr hk]

/-- The state has an account of what was asked about so far, and the pass that comes next asks about all of
    it, and else about ambiguous names only that were asked about as helpers. -/
def Accounted (job : Job) (source : String) (registry : Registry) (p : Progress) : Prop :=
  ∃ asked place file, p.Accounts job.plan registry asked place file ∧
    (∀ entry ∈ asked, entry ∈ job.entries source p) ∧
    ∀ kind n, (kind, n) ∈ job.entries source p → (kind, n) ∉ asked →
      kind = .ambiguous ∧ (.helper, n) ∈ asked

/-- After the first round, if there is to be another. -/
theorem accounted_first {journal : Journal} {code : String} {later : Progress}
    (h : (ofTemplate plan name suggest).round source { registry, journal } =
      (.ok (code, true), later)) :
    Accounted (ofTemplate plan name suggest) source registry
      ((ofTemplate plan name suggest).enter "Recompiling" later) := by
  obtain ⟨⟨place, file, ha⟩, _⟩ := accounts_first h
  have hq := enter_told (ofTemplate plan name suggest) "Recompiling" later
  refine ⟨_, place, file, ha.ofTold hq, ?_⟩
  cases ho : plan.config.knownHelpersOnly with
  | true =>
    have hk : ((ofTemplate plan name suggest).enter "Recompiling" later).registry.known =
        registry.known := by
      rw [hq.registry, known_of_only ho (pending_start registry journal) h]
    rw [@entries_congr source plan name suggest { registry, journal } _ hk]
    exact ⟨fun _ he => he, fun kind n he hn => absurd he hn⟩
  | false =>
    have hk : ∀ n ∈ registry.known,
        n ∈ ((ofTemplate plan name suggest).enter "Recompiling" later).registry.known := by
      intro n hn
      rw [hq.registry]
      exact known_round h hn
    obtain ⟨hkept, hnew⟩ := @entries_grown source plan name suggest _ _ ho
      (fault_of_compile (compile_of_coded h)) hk
    refine ⟨fun (kind, n) he => hkept kind n he, fun kind n he hn => ?_⟩
    obtain ⟨rfl, hlater, hbefore⟩ := hnew kind n he hn
    rw [hq.registry, ha.known] at hlater
    exact ⟨rfl, (hlater.resolve_left hbefore).1⟩

/-- After a later round. -/
theorem Accounted.again {q later : Progress} {code : String} {anything : Bool}
    (h : Accounted (ofTemplate plan name suggest) source registry q)
    (hr : (ofTemplate plan name suggest).round source q = (.ok (code, anything), later)) :
    later.registry = q.registry ∧ ∃ place file, later.Accounts plan registry
      ((ofTemplate plan name suggest).entries source q) place file := by
  obtain ⟨asked, place, file, ha, hkept, hnew⟩ := h
  refine ⟨(round_later ha hnew hr).1, place, file, (accounts_later ha hnew hr).congr fun entry => ?_⟩
  rw [List.mem_append, or_iff_right_of_imp (hkept entry)]

/-- **Every round of a run of a template but the first begins with an account.** -/
theorem accounted_reached {journal : Journal} {q : Progress}
    (h : (ofTemplate plan name suggest).Reached source { registry, journal } q) :
    q = { registry, journal } ∨ Accounted (ofTemplate plan name suggest) source registry q := by
  induction h with
  | start => exact .inl rfl
  | @again p later code before round ih =>
    rcases ih with rfl | ih
    · exact .inr (accounted_first round)
    · obtain ⟨hreg, place, file, ha⟩ := ih.again round
      have hq := enter_told (ofTemplate plan name suggest) "Recompiling" later
      have he := @entries_congr source plan name suggest _ _
        (congrArg Registry.known (hq.registry.trans hreg))
      refine .inr ⟨_, place, file, ha.ofTold hq, ?_⟩
      rw [he]
      exact ⟨fun _ he => he, fun kind n he hn => absurd he hn⟩

variable {journal : Journal} {settled : Settled} {p : Progress}

/-- **A settled template has an account** of what its last pass asked about. -/
theorem accounts_of_settle
    (h : (ofTemplate plan name suggest).settle source registry journal = (.ok settled, p)) :
    p.table = settled.table ∧ ∃ place file,
      p.Accounts plan registry ((ofTemplate plan name suggest).entries source p) place file := by
  obtain ⟨q, hq, hend⟩ := rounds_last (rounds_of_settle h)
  cases hend with
  | @settled code last round =>
    have ht := finish_told (ofTemplate plan name suggest) code last
    have hreg : last.registry = q.registry := (round_of_nothing round rfl).2.1
    have hlast : ∃ place file, last.Accounts plan registry
        ((ofTemplate plan name suggest).entries source q) place file := by
      rcases accounted_reached hq with rfl | hq
      · exact (accounts_first round).1
      · exact (hq.again round).2
    obtain ⟨place, file, ha⟩ := hlast
    refine ⟨rfl, place, file, ?_⟩
    rw [entries_congr (congrArg Registry.known (ht.registry.trans hreg))]
    exact ha.ofTold ht

/-- A helper that is asked about stays where it was found before. -/
theorem given_of_settle
    (h : (ofTemplate plan name suggest).settle source registry journal = (.ok settled, p))
    {n : String} (hn : (.helper, n) ∈ (ofTemplate plan name suggest).entries source p) {path : Path}
    (hf : registry.path? n = some path) :
    settled.table.path? .helper n = some path ∧ p.registry.path? n = some path := by
  obtain ⟨ht, place, _, ha⟩ := accounts_of_settle h
  have hplace : place n = some path := ha.given n path hn hf
  constructor
  · rw [← ht, SymbolTable.path?_eq_some_iff, ha.helpers, if_pos (.inl hn), hplace]
    rfl
  · rw [ha.paths, if_pos (.inl hn), hplace]
    rfl

/-- The searches for a settled template are those of the first round. -/
theorem searches_of_settle
    (h : (ofTemplate plan name suggest).settle source registry journal = (.ok settled, p)) :
    ∃ helpers members partials : List String, p.journal.searches = journal.searches ++
        (helpers.map (.helper, ·) ++ members.map (.ambiguous, ·) ++
          partials.map (.partialTemplate, ·)) ∧
      (helpers ++ members).Nodup ∧ partials.Nodup := by
  have hrounds := rounds_of_settle h
  rcases hr : (ofTemplate plan name suggest).round source { registry, journal } with
    ⟨error | ⟨code, anything⟩, later⟩
  · rw [rounds_of_error hr] at hrounds
    cases hrounds
  · obtain ⟨_, _, hrounds', _, _, _, hj⟩ := rounds_ofTemplate (pending_start registry journal) hr
    rw [hrounds] at hrounds'
    cases hrounds'
    rw [hj.searches]
    exact (accounts_first hr).2

/-! ## 4. The table of a settled template -/

/-- **The table of a settled template**: no name was searched twice as a helper or an ambiguous name, no
    partial was searched twice, nothing is pending, the partials are found, and where a name is recorded
    both as a helper and as an ambiguous name, both were found at the same place or neither was. -/
theorem settled_table
    (h : (ofTemplate plan name suggest).settle source registry journal = (.ok settled, p)) :
    (∃ searched, p.journal.searches = journal.searches ++ searched ∧
      ((searched.filter fun search => search.1 ≠ .partialTemplate).map Prod.snd).Nodup ∧
      ((searched.filter fun search => search.1 = .partialTemplate).map Prod.snd).Nodup) ∧
    (∀ kind n, settled.table.get? kind n ≠ some .pending) ∧
    (∀ n state, settled.table.get? .partialTemplate n = some state →
      ∃ path, state = .resolved path) ∧
    (∀ n path, settled.table.get? .ambiguous n = some (.resolved path) →
      settled.table.get? .helper n = some (.resolved path)) ∧
    ∀ n helper member, settled.table.get? .helper n = some helper →
      settled.table.get? .ambiguous n = some member →
      ((∃ path, helper = .resolved path) ↔ ∃ path, member = .resolved path) := by
  obtain ⟨ht, place, file, ha⟩ := accounts_of_settle h
  obtain ⟨helpers, members, partials, hs, hn, hp⟩ := searches_of_settle h
  rw [← ht]
  refine ⟨⟨_, hs, ?_, ?_⟩, ha.not_pending, fun n state hn => ?_, fun n path hn => ?_,
    fun n helper member hh hm => ?_⟩
  · have hsymbols : ((helpers.map (SymbolKind.helper, ·) ++ members.map (SymbolKind.ambiguous, ·) ++
        partials.map (SymbolKind.partialTemplate, ·)).filter
          fun search => search.1 ≠ .partialTemplate).map Prod.snd = helpers ++ members := by
      rw [List.filter_append, List.filter_eq_self.mpr, List.filter_eq_nil_iff.mpr]
      · simp [Function.comp_def]
      · simp
      · intro search hm
        rw [List.mem_append, List.mem_map, List.mem_map] at hm
        obtain ⟨_, _, rfl⟩ | ⟨_, _, rfl⟩ := hm <;> rfl
    rw [hsymbols]
    exact hn
  · have hpartials : ((helpers.map (SymbolKind.helper, ·) ++ members.map (SymbolKind.ambiguous, ·) ++
        partials.map (SymbolKind.partialTemplate, ·)).filter
          fun search => search.1 = .partialTemplate).map Prod.snd = partials := by
      rw [List.filter_append, List.filter_eq_nil_iff.mpr, List.filter_eq_self.mpr]
      · simp [Function.comp_def]
      · simp
      · intro search hm
        rw [List.mem_append, List.mem_map, List.mem_map] at hm
        obtain ⟨_, _, rfl⟩ | ⟨_, _, rfl⟩ := hm <;> exact nofun
    rw [hpartials]
    exact hp
  · rw [ha.partials] at hn
    split at hn
    · cases hn
      exact ⟨file n, rfl⟩
    · cases hn
  · rw [ha.ambiguous] at hn
    split at hn
    · rename_i he
      cases hf : place n with
      | none =>
        rw [hf] at hn
        cases hn
      | some path' =>
        rw [hf] at hn
        rw [ha.helpers, if_pos (Or.inr ⟨he, by rw [hf]; rfl⟩), hf]
        exact hn
    · cases hn
  · rw [ha.helpers] at hh
    rw [ha.ambiguous] at hm
    split at hh <;> cases hh
    split at hm <;> cases hm
    exact .rfl

/-- The template of every kind is settled where everything is found and a helper `n` is known: its partial, its
    helper and its ambiguous name are in the table. -/
theorem recorded_everyKind : ∃ settled p,
    (ofTemplate everywhere "t" fun _ => []).settle everyKind (.insert {} "n") [] = (.ok settled, p) ∧
      (∃ path, settled.table.get? .partialTemplate "b" = some (.resolved path)) ∧
      (∃ path, settled.table.get? .helper "m" = some (.resolved path)) ∧
      ∃ path, settled.table.get? .ambiguous "n" = some (.resolved path) := by
  obtain ⟨settled, p, h⟩ : ∃ settled p, (ofTemplate everywhere "t" fun _ => []).settle everyKind
      (.insert {} "n") [] = (.ok settled, p) :=
    settles_everyKind (fun _ base request => ⟨base.join ⟨request⟩, rfl⟩) (.insert {} "n")
  obtain ⟨ht, place, file, ha⟩ := accounts_of_settle h
  have hknown : "n" ∈ p.registry.known := by
    rw [ha.known]
    exact .inl (by simp [Registry.insert])
  let asked : List (SymbolKind × String) :=
    [(.partialTemplate, "$a"), (.partialTemplate, "b"), (.helper, "m"), (.ambiguous, "n")]
  have hasked : (ofTemplate everywhere "t" fun _ => []).entries everyKind p = asked := by
    rw [entries_ofTemplate, passOutline, if_neg (by decide), outline_everyKind rfl]
    simp [asked, Reference.symbol?, helperReference, isProvidedPartial, hknown]
  replace ha : p.Accounts everywhere (.insert {} "n") asked place file := hasked ▸ ha
  have hsearchm : (everywhere.search .helper "m" []).1 = some ⟨"././m"⟩ := rfl
  have hsearchn : (everywhere.search .ambiguous "n" []).1 = some ⟨"././n"⟩ := rfl
  have hm := (ha.helper "m" (by decide) rfl).unique (fun _ => rfl) ⟨[], hsearchm⟩
  have hn := (ha.member "n" (by decide) (by decide)).unique (fun _ => rfl) ⟨[], hsearchn⟩
  refine ⟨settled, p, h, ⟨file "b", ?_⟩, ⟨⟨"././m"⟩, ?_⟩, ⟨⟨"././n"⟩, ?_⟩⟩
  · rw [← ht, ha.partials, if_pos (by decide)]
  · rw [← ht, ha.helpers, if_pos (.inl (by decide)), hm]
    rfl
  · rw [← ht, ha.ambiguous, if_pos (by decide), hn]
    rfl

/-- So what was said of the table of a settled template holds of it. -/
theorem settled_table_everywhere :
    ∃ settled p, (ofTemplate everywhere "t" fun _ => []).settle everyKind (.insert {} "n") [] =
        (.ok settled, p) ∧
      ((∃ path, settled.table.get? .partialTemplate "b" = some (.resolved path)) ∧
        (∃ path, settled.table.get? .helper "m" = some (.resolved path)) ∧
        ∃ path, settled.table.get? .ambiguous "n" = some (.resolved path)) ∧
      (∃ searched, p.journal.searches = Journal.searches [] ++ searched ∧
        ((searched.filter fun search => search.1 ≠ .partialTemplate).map Prod.snd).Nodup ∧
        ((searched.filter fun search => search.1 = .partialTemplate).map Prod.snd).Nodup) ∧
      (∀ kind n, settled.table.get? kind n ≠ some .pending) ∧
      (∀ n state, settled.table.get? .partialTemplate n = some state →
        ∃ path, state = .resolved path) ∧
      (∀ n path, settled.table.get? .ambiguous n = some (.resolved path) →
        settled.table.get? .helper n = some (.resolved path)) ∧
      ∀ n helper member, settled.table.get? .helper n = some helper →
        settled.table.get? .ambiguous n = some member →
        ((∃ path, helper = .resolved path) ↔ ∃ path, member = .resolved path) := by
  obtain ⟨settled, p, h, hrecorded⟩ := recorded_everyKind
  exact ⟨settled, p, h, hrecorded, settled_table h⟩

end Run

end Job

end Stache
