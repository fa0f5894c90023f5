import Stache.Proofs.Job.Compiling
import Stache.Proofs.Search.Symbol
import Stache.Proofs.Symbol.Registry

/-!
# The search for helpers and ambiguous names

What a stage that searches does, said once and in full: to the table name by name, to the registry, to the
journal.

* `Progress.Searched` -- each pending symbol of a kind becomes found or missed; the names that were looked
  for are in the journal, each once;
* `searchHelpers_spec` -- all pending helpers are looked for;
* `searchAmbiguous_spec` -- of the pending ambiguous names, those are looked for whose helper nobody has
  looked for.
-/

namespace Stache

/-! ## 1. Steps for names -/

/-- Steps that each change what belongs to one name, made once for each of some names. -/
theorem foldl_own {σ β : Type} (view : σ → String → β) {step : σ → String → σ}
    (change : String → β → β)
    (h : ∀ s m n, view (step s m) n = if m = n then change n (view s n) else view s n)
    {names : List String} (hn : names.Nodup) (s : σ) (n : String) :
    view (names.foldl step s) n = if n ∈ names then change n (view s n) else view s n := by
  induction names generalizing s with
  | nil => rfl
  | cons m names ih =>
    obtain ⟨hm, hn⟩ := List.nodup_cons.mp hn
    rw [List.foldl_cons, ih hn, h]
    by_cases e : m = n
    · subst e
      rw [if_neg hm, if_pos rfl, if_pos List.mem_cons_self]
    · have he : (n ∈ m :: names) ↔ n ∈ names := by
        rw [List.mem_cons, or_iff_right fun e' => e e'.symm]
      simp only [if_neg e, he]

/-! ## 2. What a stage does -/

namespace Progress

/-- The end of a stage that deals with the pending names of a kind: `found` tells where they are, and
    `names` are those of them that were looked for. Helpers that were found are known from now on, and an
    ambiguous name that was found is a helper that was found. -/
structure Searched (plan : SearchPlan) (kind : SymbolKind) (names : List String)
    (found : String → Option Path) (p : Progress) (anything : Bool) (later : Progress) : Prop where
  anything : anything = true ↔ ∃ n ∈ p.table.pending kind, (found n).isSome = true
  own : ∀ n, later.table.get? kind n =
    if n ∈ p.table.pending kind then some (.ofSearch (found n)) else p.table.get? kind n
  others : ∀ other, other ≠ kind → ∀ n, later.table.get? other n =
    if (kind = .ambiguous ∧ other = .helper) ∧ n ∈ p.table.pending kind ∧ (found n).isSome = true
    then some (.ofSearch (found n)) else p.table.get? other n
  sublist : names.Sublist (p.table.pending kind)
  searches : later.journal.searches = p.journal.searches ++ names.map (kind, ·)
  quiet : names = [] → later.journal.Agrees p.journal
  passes : later.passes = p.passes
  known : ∀ n, n ∈ later.registry.known ↔ n ∈ p.registry.known ∨
    kind ≠ .partialTemplate ∧ n ∈ names ∧ (found n).isSome = true
  registry : (∀ n ∈ names, found n = none) → later.registry = p.registry
  le : p.table ≤ later.table
  outcome : ∀ n ∈ names, plan.Outcome kind n (found n)
  taken : ∀ n ∈ p.table.pending kind, n ∉ names → found n = p.table.path? .helper n
  paths : ∀ n, later.registry.path? n =
    if kind ≠ .partialTemplate ∧ n ∈ names then (found n).or (p.registry.path? n)
    else p.registry.path? n
  scanned : later.registry.scanned = p.registry.scanned

namespace Searched

variable {plan : SearchPlan} {kind : SymbolKind} {names : List String}
  {found : String → Option Path} {p later : Progress} {anything : Bool}

/-- Nothing of the kind is pending afterwards. -/
theorem pending_eq_nil (h : p.Searched plan kind names found anything later) :
    later.table.pending kind = [] := by
  refine List.eq_nil_iff_forall_not_mem.mpr fun n hm => ?_
  rw [SymbolTable.mem_pending, h.own] at hm
  split at hm
  · cases hf : found n <;> rw [hf] at hm <;> cases hm
  · rename_i hn
    exact hn (SymbolTable.mem_pending.mpr hm)

/-- What was pending was searched. -/
theorem isAttempted (h : p.Searched plan kind names found anything later) {n : String}
    (hm : n ∈ p.table.pending kind) : later.table.isAttempted kind n = true := by
  rw [SymbolTable.isAttempted_eq, h.own, if_pos hm]
  cases found n <;> rfl

/-- No symbol of another kind becomes pending. -/
theorem pending_of_pending (h : p.Searched plan kind names found anything later) {other : SymbolKind}
    {n : String} (hm : n ∈ later.table.pending other) : n ∈ p.table.pending other := by
  rw [SymbolTable.mem_pending] at hm ⊢
  by_cases ho : other = kind
  · subst ho
    rw [← SymbolTable.mem_pending, h.pending_eq_nil] at hm
    cases hm
  · rw [h.others other ho] at hm
    split at hm
    · cases hf : found n <;> rw [hf] at hm <;> cases hm
    · exact hm

/-- Where nothing is pending, nothing is found. -/
theorem anything_eq_false (h : p.Searched plan kind names found anything later)
    (hn : p.table.pending kind = []) : anything = false := by
  rw [Bool.eq_false_iff]
  intro e
  obtain ⟨n, hm, _⟩ := h.anything.mp e
  rw [hn] at hm
  cases hm

/-- Nothing becomes pending. -/
theorem pending_eq_nil_of (h : p.Searched plan kind names found anything later) {other : SymbolKind}
    (hn : p.table.pending other = []) : later.table.pending other = [] := by
  refine List.eq_nil_iff_forall_not_mem.mpr fun n hm => ?_
  have := h.pending_of_pending hm
  rw [hn] at this
  cases this

/-- Where nothing is pending, nothing changes. -/
theorem eq_of_pending (h : p.Searched plan kind names found anything later)
    (hn : p.table.pending kind = []) : later.table = p.table ∧ later.registry = p.registry := by
  refine ⟨SymbolTable.ext_get? fun other n => ?_, h.registry fun n hm => ?_⟩
  · by_cases ho : other = kind
    · subst ho
      rw [h.own, hn, if_neg List.not_mem_nil]
    · rw [h.others other ho, hn, if_neg fun h => List.not_mem_nil h.2.1]
  · have := h.sublist.subset hm
    rw [hn] at this
    cases this

/-- Nothing was found. -/
theorem found_eq_none (h : p.Searched plan kind names found false later) {n : String}
    (hm : n ∈ p.table.pending kind) : found n = none := by
  cases hf : found n with
  | none => rfl
  | some path =>
    have := h.anything.mpr ⟨n, hm, by rw [hf]; rfl⟩
    cases this

/-- If nothing was found, the registry is what it was. -/
theorem registry_eq (h : p.Searched plan kind names found false later) : later.registry = p.registry :=
  h.registry fun _ hm => h.found_eq_none (h.sublist.subset hm)

/-- If nothing was found, all paths are what they were. -/
theorem path?_eq (h : p.Searched plan kind names found false later) (other : SymbolKind) (n : String) :
    later.table.path? other n = p.table.path? other n := by
  rw [SymbolTable.path?_eq, SymbolTable.path?_eq]
  by_cases ho : other = kind
  · subst ho
    rw [h.own]
    split
    · rename_i hm
      rw [h.found_eq_none hm, SymbolTable.mem_pending.mp hm]
      rfl
    · rfl
  · rw [h.others other ho]
    split
    · rename_i hm
      rw [h.found_eq_none hm.2.1] at hm
      cases hm.2.2
    · rfl

/-- A message before the stage is no matter. -/
theorem ofTold {q : Progress} (h : q.Searched plan kind names found anything later) (hq : p.Told q) :
    p.Searched plan kind names found anything later where
  anything := hq.table ▸ h.anything
  own := hq.table ▸ h.own
  others := hq.table ▸ h.others
  sublist := hq.table ▸ h.sublist
  searches := by rw [h.searches, hq.journal.searches]
  quiet e := (h.quiet e).trans hq.journal
  passes := h.passes.trans hq.passes
  known := hq.registry ▸ h.known
  registry e := (h.registry e).trans hq.registry
  le := hq.table ▸ h.le
  outcome := h.outcome
  taken := hq.table ▸ h.taken
  paths := hq.registry ▸ h.paths
  scanned := h.scanned.trans (congrArg Registry.scanned hq.registry)

end Searched

end Progress

/-! ## 3. Helpers -/

/-- A way to record the outcome of a search for a helper: the registry learns where it is. -/
structure Noting (note : Progress → String × Option Path → Progress) : Prop where
  le : ∀ p result, p.table ≤ (note p result).table
  found : ∀ p name path, (note p (name, some path)).registry = p.registry.record name path
  missed : ∀ p name, (note p (name, none)).registry = p.registry
  journal : ∀ p result, (note p result).journal = p.journal
  passes : ∀ p result, (note p result).passes = p.passes

/-- **The registry after several searches** knows what was found in them. -/
theorem Noting.foldl {note : Progress → String × Option Path → Progress} (h : Noting note)
    (found : String → Option Path) (names : List String) (p : Progress) :
    let later := names.foldl (fun p n => note p (n, found n)) p
    later.journal = p.journal ∧ later.passes = p.passes ∧
      (∀ n, n ∈ later.registry.known ↔
        n ∈ p.registry.known ∨ n ∈ names ∧ (found n).isSome = true) ∧
      ((∀ n ∈ names, found n = none) → later.registry = p.registry) ∧
      ∀ n, later.registry.path? n =
        if n ∈ names then (found n).or (p.registry.path? n) else p.registry.path? n := by
  induction names generalizing p with
  | nil => exact ⟨rfl, rfl, fun n => by simp, fun _ => rfl, fun _ => rfl⟩
  | cons name names ih =>
    obtain ⟨hj, hp, hk, hr, hw⟩ := ih (note p (name, found name))
    refine ⟨hj.trans (h.journal _ _), hp.trans (h.passes _ _), fun n => ?_, fun hn => ?_,
      fun n => ?_⟩
    · rw [List.foldl_cons, hk]
      cases e : found name with
      | none =>
        rw [h.missed]
        by_cases he : n = name
        · subst he
          simp [e]
        · simp [he]
      | some path =>
        rw [h.found, Registry.mem_known_record]
        by_cases he : n = name
        · subst he
          simp [e]
        · have he' : name ≠ n := fun e => he e.symm
          simp [he, he']
    · rw [List.foldl_cons, hr fun n hm => hn n (List.mem_cons_of_mem _ hm),
        hn name List.mem_cons_self, h.missed]
    · have hnote : (note p (name, found name)).registry.path? n =
          if name = n then (found name).or (p.registry.path? n) else p.registry.path? n := by
        cases e : found name with
        | none => rw [h.missed, Option.none_or, ite_self]
        | some path => rw [h.found, Registry.path?_record, Option.some_or]
      rw [List.foldl_cons, hw, hnote]
      by_cases he : name = n
      · subst he
        cases found name <;> simp
      · have he' : n ≠ name := fun e => he e.symm
        simp [he, he']

/-- To record helpers is not to scan for them. -/
theorem Noting.scanned {note : Progress → String × Option Path → Progress} (h : Noting note)
    (found : String → Option Path) (names : List String) (p : Progress) :
    (names.foldl (fun p n => note p (n, found n)) p).registry.scanned = p.registry.scanned := by
  induction names generalizing p with
  | nil => rfl
  | cons name names ih =>
    refine (ih (note p (name, found name))).trans ?_
    cases found name with
    | none => rw [h.missed]
    | some path =>
      rw [h.found]
      rfl

theorem noting_noteHelper : Noting Job.noteHelper where
  le p := fun (name, found) => by
    cases found with
    | none => exact p.table.le_markUnresolved .helper name
    | some path => exact p.table.le_markResolved .helper name path
  found _ _ _ := rfl
  missed _ _ := rfl
  journal _ := fun (_, found) => by cases found <;> rfl
  passes _ := fun (_, found) => by cases found <;> rfl

namespace Job

variable (job : Job)

/-- What is known after the searches for some helpers. -/
theorem get?_foldl_noteHelper (found : String → Option Path) {names : List String}
    (hn : names.Nodup) (p : Progress) (kind : SymbolKind) (n : String) :
    (names.foldl (fun p n => noteHelper p (n, found n)) p).table.get? kind n =
      if n ∈ names then
        if kind = .helper then
          match found n with
          | some path => some (((p.table.get? kind n).getD .pending).found path)
          | none => (p.table.get? kind n).map .missed
        else p.table.get? kind n
      else p.table.get? kind n := by
  refine foldl_own (fun p n => p.table.get? kind n)
    (fun n state =>
      if kind = .helper then
        match found n with
        | some path => some ((state.getD .pending).found path)
        | none => state.map .missed
      else state) ?_ hn p n
  intro p m n
  by_cases e : m = n
  · subst e
    cases hf : found m <;> cases kind <;>
      simp [noteHelper, SymbolTable.get?_markResolved, SymbolTable.get?_markUnresolved]
  · cases hf : found m <;>
      simp [noteHelper, SymbolTable.get?_markResolved, SymbolTable.get?_markUnresolved, e]

/-- **The search for helpers.** -/
theorem searchHelpers_spec (p : Progress) :
    ∃ found, p.Searched job.plan .helper (p.table.pending .helper) found (job.searchHelpers p).1
      (job.searchHelpers p).2 := by
  have hn := p.table.pending_nodup .helper
  obtain ⟨found, h₁, h₂, h₃⟩ := job.plan.searchAll_spec .helper _ p.journal hn
  refine ⟨found, ?_⟩
  simp only [searchHelpers, searchAll, h₁, List.foldl_map]
  obtain ⟨hj, hp, hk, hr, hw⟩ := noting_noteHelper.foldl found (p.table.pending .helper)
    { p with journal := (job.plan.searchAll .helper p.journal (p.table.pending .helper)).2 }
  have ht := get?_foldl_noteHelper found hn
    { p with journal := (job.plan.searchAll .helper p.journal (p.table.pending .helper)).2 }
  have hle := SymbolTable.le_foldl Progress.table (fun p n => noting_noteHelper.le p (n, found n))
    (p.table.pending .helper)
    { p with journal := (job.plan.searchAll .helper p.journal (p.table.pending .helper)).2 }
  refine ⟨?_, fun n => ?_, fun other ho n => ?_, .refl _, ?_, ?_, hp, ?_, hr, hle, h₃,
    fun n hm hm' => absurd hm hm', fun n => ?_, noting_noteHelper.scanned found _ _⟩
  · simp [anyFound]
  · rw [ht, if_pos rfl]
    by_cases hm : n ∈ p.table.pending .helper
    · rw [if_pos hm, if_pos hm, SymbolTable.mem_pending.mp hm]
      cases found n <;> rfl
    · rw [if_neg hm, if_neg hm]
  · rw [ht, if_neg ho, ite_self, if_neg fun h => SymbolKind.noConfusion h.1.1]
  · rw [hj]
    exact h₂
  · intro e
    rw [hj]
    simp only [e, SearchPlan.searchAll]
    exact .refl _
  · intro n
    rw [hk]
    simp
  · rw [hw]
    simp

/-! ## 4. Ambiguous names -/

/-- What is known after the outcomes for some helpers were taken over. -/
theorem get?_foldl_reuse {names : List String} (hn : names.Nodup) (table : SymbolTable)
    (kind : SymbolKind) (n : String) :
    (names.foldl reuse table).get? kind n =
      if n ∈ names ∧ .ambiguous = kind then
        match table.get? .helper n with
        | some (.resolved path) => some (((table.get? kind n).getD .pending).found path)
        | some .unresolved => (table.get? kind n).map .missed
        | _ => table.get? kind n
      else table.get? kind n := by
  have step (t : SymbolTable) (m n : String) :
      (fun kind => (reuse t m).get? kind n) =
        if m = n then fun kind =>
          if .ambiguous = kind then
            match t.get? .helper n with
            | some (.resolved path) => some (((t.get? kind n).getD .pending).found path)
            | some .unresolved => (t.get? kind n).map .missed
            | _ => t.get? kind n
          else t.get? kind n
        else fun kind => t.get? kind n := by
    by_cases e : m = n
    · subst e
      funext kind
      rw [if_pos rfl]
      unfold reuse
      rw [SymbolTable.path?_eq, SymbolTable.isAttempted_eq]
      rcases hh : t.get? .helper m with _ | _ | _ | path
      · simp
      · simp [Resolution.path?, Resolution.attempted]
      · cases kind <;> simp [Resolution.path?, Resolution.attempted, SymbolTable.get?_markUnresolved]
      · cases kind <;> simp [Resolution.path?, SymbolTable.get?_promote, Resolution.found, hh]
    · funext kind
      rw [if_neg e]
      unfold reuse
      split
      · simp [SymbolTable.get?_promote, e]
      · split
        · simp [SymbolTable.get?_markUnresolved, e]
        · rfl
  have h := congrFun (foldl_own (fun (t : SymbolTable) n kind => t.get? kind n)
    (fun _ state kind =>
      if .ambiguous = kind then
        match state .helper with
        | some (.resolved path) => some (((state kind).getD .pending).found path)
        | some .unresolved => (state kind).map .missed
        | _ => state kind
      else state kind) step hn table n) kind
  refine h.trans ?_
  by_cases hm : n ∈ names <;> by_cases hk : .ambiguous = kind <;> simp [hm, hk]

/-- What is known of a helper is taken over upwards. -/
theorem le_reuse (table : SymbolTable) (name : String) : table ≤ reuse table name := by
  unfold reuse
  split
  · exact table.le_promote name _
  · split
    · exact table.le_markUnresolved .ambiguous name
    · exact le_refl table

theorem noting_noteAmbiguous : Noting noteAmbiguous where
  le p := fun (name, found) => by
    cases found with
    | none => exact p.table.le_markUnresolved .ambiguous name
    | some path => exact p.table.le_promote name path
  found _ _ _ := rfl
  missed _ _ := rfl
  journal _ := fun (_, found) => by cases found <;> rfl
  passes _ := fun (_, found) => by cases found <;> rfl

/-- What is known after the searches for some ambiguous names. -/
theorem get?_foldl_noteAmbiguous (found : String → Option Path) {names : List String}
    (hn : names.Nodup) (p : Progress) (kind : SymbolKind) (n : String) :
    (names.foldl (fun p n => noteAmbiguous p (n, found n)) p).table.get? kind n =
      if n ∈ names then
        match found n with
        | some path =>
          if kind = .partialTemplate then p.table.get? kind n
          else some (((p.table.get? kind n).getD .pending).found path)
        | none =>
          if kind = .ambiguous then (p.table.get? kind n).map .missed else p.table.get? kind n
      else p.table.get? kind n := by
  refine foldl_own (fun p n => p.table.get? kind n)
    (fun n state =>
      match found n with
      | some path =>
        if kind = .partialTemplate then state else some ((state.getD .pending).found path)
      | none => if kind = .ambiguous then state.map .missed else state) ?_ hn p n
  intro p m n
  by_cases e : m = n
  · subst e
    cases hf : found m <;> cases kind <;>
      simp [noteAmbiguous, SymbolTable.get?_promote, SymbolTable.get?_markUnresolved]
  · cases hf : found m <;>
      simp [noteAmbiguous, SymbolTable.get?_promote, SymbolTable.get?_markUnresolved, e]

/-- The ambiguous names that have to be looked for: nobody looked for the helper. -/
def unsearched (table : SymbolTable) : List String :=
  (table.pending .ambiguous).filter fun n => !table.isAttempted .helper n

theorem mem_unsearched {table : SymbolTable} {n : String} : n ∈ unsearched table ↔
    table.get? .ambiguous n = some .pending ∧ table.isAttempted .helper n = false := by
  simp [unsearched, List.mem_filter]

/-- The state in which ambiguous names are noted: what is known of helpers was taken over, and the names
    were looked for. -/
def lookedAmbiguous (p : Progress) : Progress :=
  { p with
    table := (p.table.pending .ambiguous).foldl reuse p.table
    journal := (job.plan.searchAll .ambiguous p.journal (unsearched p.table)).2 }

/-- Where an ambiguous name is: there where the helper is if somebody looked for it, or else where the
    search found it. -/
def ambiguousFound (table : SymbolTable) (looked : String → Option Path) (n : String) : Option Path :=
  if table.isAttempted .helper n then table.path? .helper n else looked n

theorem ambiguousFound_of_path? {table : SymbolTable} {n : String}
    (h : (table.path? .helper n).isSome = true) (looked : String → Option Path) :
    ambiguousFound table looked n = table.path? .helper n :=
  if_pos (SymbolTable.isAttempted_of_isSome_path? h)

theorem ambiguousFound_of_mem {table : SymbolTable} {n : String} (h : n ∈ unsearched table)
    (looked : String → Option Path) : ambiguousFound table looked n = looked n :=
  if_neg (by rw [(mem_unsearched.mp h).2]; exact Bool.false_ne_true)

/-- What is known of an ambiguous name after the stage. -/
theorem get?_searchAmbiguous (looked : String → Option Path) (p : Progress) (kind : SymbolKind)
    (n : String) :
    let later := (unsearched p.table).foldl (fun p n => noteAmbiguous p (n, looked n))
      (job.lookedAmbiguous p)
    later.table.get? kind n =
      if n ∈ p.table.pending .ambiguous ∧ (kind = .ambiguous ∨
          kind = .helper ∧ (ambiguousFound p.table looked n).isSome = true) then
        some (.ofSearch (ambiguousFound p.table looked n))
      else p.table.get? kind n := by
  have hn := p.table.pending_nodup .ambiguous
  have hs : (unsearched p.table).Nodup := List.filter_sublist.nodup hn
  dsimp only
  rw [get?_foldl_noteAmbiguous looked hs, lookedAmbiguous]
  simp only [get?_foldl_reuse hn, mem_unsearched, SymbolTable.mem_pending]
  by_cases hm : p.table.get? .ambiguous n = some .pending
  · rw [ambiguousFound, SymbolTable.isAttempted_eq, SymbolTable.path?_eq]
    rcases hh : p.table.get? .helper n with _ | _ | _ | path
    · cases hl : looked n <;> cases kind <;> simp [hm, hh]
    · cases hl : looked n <;> cases kind <;> simp [hm, hh, Resolution.attempted]
    · cases kind <;> simp [hm, hh, Resolution.attempted, Resolution.path?]
    · cases kind <;> simp [hm, hh, Resolution.attempted, Resolution.path?, Resolution.ofSearch]
  · simp [hm]

/-- **The search for ambiguous names.** What is known of a helper that was looked for is known of the
    ambiguous name; only the others are looked for. -/
theorem searchAmbiguous_spec (p : Progress) :
    ∃ found, p.Searched job.plan .ambiguous (unsearched p.table) found
      (job.searchAmbiguous p).1 (job.searchAmbiguous p).2 := by
  have hn := p.table.pending_nodup .ambiguous
  have hs : (unsearched p.table).Sublist (p.table.pending .ambiguous) := List.filter_sublist
  obtain ⟨looked, h₁, h₂, h₃⟩ := job.plan.searchAll_spec .ambiguous _ p.journal (hs.nodup hn)
  have hflag : (job.searchAmbiguous p).1 =
      ((p.table.pending .ambiguous).any (fun n => (p.table.path? .helper n).isSome) ||
        (unsearched p.table).any fun n => (looked n).isSome) := by
    show (_ || anyFound (job.plan.searchAll .ambiguous p.journal (unsearched p.table)).1) = _
    rw [h₁, anyFound, List.any_map]
    rfl
  have hlater : (job.searchAmbiguous p).2 = (unsearched p.table).foldl
      (fun p n => noteAmbiguous p (n, looked n)) (job.lookedAmbiguous p) := by
    show (job.plan.searchAll .ambiguous p.journal (unsearched p.table)).1.foldl noteAmbiguous _ = _
    rw [h₁, List.foldl_map]
    rfl
  obtain ⟨hj, hp, hk, hr, hw⟩ :=
    noting_noteAmbiguous.foldl looked (unsearched p.table) (job.lookedAmbiguous p)
  have ht := job.get?_searchAmbiguous looked p
  have hfound (n : String) (h : n ∈ unsearched p.table) :
      ambiguousFound p.table looked n = looked n := ambiguousFound_of_mem h looked
  have hle : p.table ≤ (job.lookedAmbiguous p).table :=
    SymbolTable.le_foldl id le_reuse (p.table.pending .ambiguous) p.table
  have hle' := SymbolTable.le_foldl Progress.table
    (fun p n => noting_noteAmbiguous.le p (n, looked n)) (unsearched p.table) (job.lookedAmbiguous p)
  rw [hlater, hflag]
  refine ⟨ambiguousFound p.table looked, ?_, fun n => ?_, fun other ho n => ?_, hs, ?_, ?_, hp,
    fun n => ?_, fun h => ?_, le_trans hle hle', fun n hm => (hfound n hm).symm ▸ h₃ n hm,
    fun n hm hm' => ?_, fun n => ?_, noting_noteAmbiguous.scanned looked _ _⟩
  · rw [Bool.or_eq_true, List.any_eq_true, List.any_eq_true]
    constructor
    · rintro (⟨n, hm, h⟩ | ⟨n, hm, h⟩)
      · exact ⟨n, hm, (ambiguousFound_of_path? h looked).symm ▸ h⟩
      · exact ⟨n, hs.subset hm, (hfound n hm).symm ▸ h⟩
    · rintro ⟨n, hm, h⟩
      cases ha : p.table.isAttempted .helper n with
      | true => exact .inl ⟨n, hm, (if_pos ha : ambiguousFound p.table looked n = _) ▸ h⟩
      | false =>
        have hu := mem_unsearched.mpr ⟨SymbolTable.mem_pending.mp hm, ha⟩
        exact .inr ⟨n, hu, hfound n hu ▸ h⟩
  · rw [ht]
    simp
  · rw [ht]
    simp [ho, and_left_comm]
  · rw [hj]
    exact h₂
  · intro e
    rw [hj, lookedAmbiguous, e]
    exact .refl _
  · rw [hk]
    refine or_congr_right ⟨fun ⟨hm, h⟩ => ⟨nofun, hm, ?_⟩, fun ⟨_, hm, h⟩ => ⟨hm, ?_⟩⟩
    · rwa [hfound n hm]
    · rwa [← hfound n hm]
  · exact hr fun n hm => (hfound n hm).symm.trans (h n hm)
  · refine if_pos (Bool.not_eq_false _ ▸ fun ha => hm' ?_)
    exact mem_unsearched.mpr ⟨SymbolTable.mem_pending.mp hm, ha⟩
  · rw [hw]
    by_cases hm : n ∈ unsearched p.table
    · rw [if_pos hm, if_pos ⟨nofun, hm⟩, hfound n hm]
      rfl
    · rw [if_neg hm, if_neg fun h => hm h.2]
      rfl

end Job

end Stache
