import Stache.Proofs.Job.Run
import Mathlib.Data.Finset.Card
import Mathlib.Data.Finset.Filter

/-!
# Each symbol is looked for once

Whatever the compiler does, a symbol is looked for at most once per kind, and each round but the last uses
up a symbol for good.

* `Progress.SearchedOnce` -- the searches between two states of a job are of symbols that nobody has
  searched before, each once;
* `round_once` -- the searches of a round are such, and `attempted_of_again` -- a round that is followed by
  another has searched a symbol;
* `rounds_of_finite` -- a run that meets finitely many symbols ends, and how soon.
-/

namespace Stache

namespace Progress

/-! ## 1. Searches -/

/-- From the one state to the other some symbols were looked for, each once, that were not searched
    before. -/
structure SearchedOnce (more : List (SymbolKind × String)) (p later : Progress) : Prop where
  searches : later.journal.searches = p.journal.searches ++ more
  nodup : more.Nodup
  fresh : ∀ symbol ∈ more, p.table.isAttempted symbol.1 symbol.2 = false
  le : p.table ≤ later.table

/-- All of some symbols were searched. -/
def Attempted (symbols : List (SymbolKind × String)) (p : Progress) : Prop :=
  ∀ symbol ∈ symbols, p.table.isAttempted symbol.1 symbol.2 = true

/-- All symbols that are recorded belong to a finite set. -/
def RecordedIn (names : Finset (SymbolKind × String)) (p : Progress) : Prop :=
  ∀ kind n, (p.table.get? kind n).isSome = true → (kind, n) ∈ names

theorem attempted_append {more more' : List (SymbolKind × String)} {p later : Progress}
    (hle : p.table ≤ later.table) (h : p.Attempted more) (h' : later.Attempted more') :
    later.Attempted (more ++ more') := by
  intro symbol hs
  rcases List.mem_append.mp hs with hs | hs
  · exact SymbolTable.isAttempted_of_le hle (h symbol hs)
  · exact h' symbol hs

namespace SearchedOnce

variable {a b c : Progress} {more more' : List (SymbolKind × String)}

/-- No search. -/
theorem nil (hj : b.journal.searches = a.journal.searches) (hle : a.table ≤ b.table) :
    SearchedOnce [] a b :=
  ⟨by rw [hj, List.append_nil], .nil, nofun, hle⟩

/-- A message afterwards is no matter. -/
theorem told (h : SearchedOnce more a b) (hc : b.Told c) : SearchedOnce more a c where
  searches := hc.journal.searches.trans h.searches
  nodup := h.nodup
  fresh := h.fresh
  le := le_of_le_of_eq h.le hc.table.symm

/-- A message before is no matter. -/
theorem ofTold (h : SearchedOnce more b c) (hb : a.Told b) : SearchedOnce more a c where
  searches := by rw [h.searches, hb.journal.searches]
  nodup := h.nodup
  fresh := hb.table ▸ h.fresh
  le := hb.table ▸ h.le

/-- What was searched is not looked for again. -/
theorem append (h : SearchedOnce more a b) (ha : b.Attempted more)
    (h' : SearchedOnce more' b c) : SearchedOnce (more ++ more') a c where
  searches := by rw [h'.searches, h.searches, List.append_assoc]
  nodup := by
    refine List.nodup_append.mpr ⟨h.nodup, h'.nodup, ?_⟩
    rintro symbol hs _ hs' rfl
    have := ha symbol hs
    rw [h'.fresh symbol hs'] at this
    cases this
  fresh symbol hs := by
    rcases List.mem_append.mp hs with hs | hs
    · exact h.fresh symbol hs
    · rw [Bool.eq_false_iff]
      intro hp
      have := SymbolTable.isAttempted_of_le h.le hp
      rw [h'.fresh symbol hs] at this
      cases this
  le := le_trans h.le h'.le

/-- The pending symbols of a kind are new. -/
theorem ofPending {kind : SymbolKind} {names : List String}
    (hs : b.journal.searches = a.journal.searches ++ names.map (kind, ·)) (hn : names.Nodup)
    (hm : ∀ n ∈ names, n ∈ a.table.pending kind) (hle : a.table ≤ b.table) :
    SearchedOnce (names.map (kind, ·)) a b where
  searches := hs
  nodup := hn.map fun _ _ e => (Prod.mk.inj e).2
  fresh symbol h := by
    obtain ⟨n, hn, rfl⟩ := List.mem_map.mp h
    exact SymbolTable.not_isAttempted_of_pending (le_refl _) (hm n hn)
  le := hle

end SearchedOnce

/-- A stage looks for pending symbols, and has searched them afterwards. -/
theorem Searched.once {plan : SearchPlan} {kind : SymbolKind} {names : List String}
    {found : String → Option Path} {p later : Progress} {anything : Bool}
    (h : p.Searched plan kind names found anything later) :
    SearchedOnce (names.map (kind, ·)) p later ∧ later.Attempted (names.map (kind, ·)) := by
  refine ⟨.ofPending h.searches (h.sublist.nodup (p.table.pending_nodup kind))
    (fun n hn => h.sublist.subset hn) h.le, fun symbol hs => ?_⟩
  obtain ⟨n, hn, rfl⟩ := List.mem_map.mp hs
  exact h.isAttempted (h.sublist.subset hn)

/-- A stage records no symbol but the helpers of ambiguous names. -/
theorem Searched.recordedIn {plan : SearchPlan} {kind : SymbolKind} {names : List String}
    {found : String → Option Path} {p later : Progress} {anything : Bool}
    (h : p.Searched plan kind names found anything later) {all : Finset (SymbolKind × String)}
    (hc : ∀ n, (.ambiguous, n) ∈ all → (.helper, n) ∈ all) (hp : p.RecordedIn all) :
    later.RecordedIn all := by
  intro other n hs
  have pending (hm : n ∈ p.table.pending kind) : (kind, n) ∈ all :=
    hp kind n (by rw [SymbolTable.mem_pending.mp hm]; rfl)
  by_cases ho : other = kind
  · subst ho
    rw [h.own] at hs
    split at hs
    · rename_i hm
      exact pending hm
    · exact hp other n hs
  · rw [h.others other ho] at hs
    split at hs
    · rename_i hm
      obtain ⟨⟨rfl, rfl⟩, hm, _⟩ := hm
      exact hc n (pending hm)
    · exact hp other n hs

end Progress

namespace Job

variable (job : Job) (source : String) (p : Progress)

open Progress (SearchedOnce)

/-! ## 2. One round -/

/-- The searches before the stage of the partials. -/
theorem ambiguousSearched_once :
    ∃ more, SearchedOnce more p (job.ambiguousSearched source p).2 ∧
      (job.ambiguousSearched source p).2.Attempted more := by
  obtain ⟨_, hh⟩ := job.helpersSearched_spec source p
  obtain ⟨_, ha⟩ := job.ambiguousSearched_spec source p
  have hj := (job.compiled_spec source p).2.2.2
  have hc : SearchedOnce [] p (job.compiled source p) :=
    .nil hj.searches (job.le_compiled source p)
  exact ⟨_, (hc.append nofun hh.once.1).append hh.once.2 ha.once.1,
    Progress.attempted_append ha.le hh.once.2 ha.once.2⟩

/-- **The searches of a round** are of symbols that nobody has searched, each once. If the round ends with
    code, they were all searched. -/
theorem round_once :
    ∃ more, SearchedOnce more p (job.round source p).2 ∧
      ((∃ result, (job.round source p).1 = .ok result) → (job.round source p).2.Attempted more) := by
  have ends := job.round_ends source p
  obtain ⟨more, hm, ha⟩ := job.ambiguousSearched_once source p
  generalize job.round source p = result at ends ⊢
  cases ends with
  | rejected =>
    have hj := (job.compiled_spec source p).2.2.2
    exact ⟨[], .nil hj.searches (job.le_compiled source p), fun _ => nofun⟩
  | missing _ searched =>
    exact ⟨_, hm.append ha (.ofPending searched.searches (SymbolTable.pending_nodup _ _)
      (fun _ hn => hn) (le_of_eq searched.table.symm)), nofun⟩
  | coded _ searched =>
    exact ⟨_, hm.append ha searched.once.1,
      fun _ => Progress.attempted_append searched.le ha searched.once.2⟩

variable {job source p}

/-- What is recorded in a round was recorded before or asked about, or is the helper of an ambiguous name
    for which one of the two holds. -/
theorem recordedIn_round {names : Finset (SymbolKind × String)}
    (hc : ∀ n, (.ambiguous, n) ∈ names → (.helper, n) ∈ names) (hp : p.RecordedIn names)
    (hr : ∀ entry ∈ job.entries source p, entry ∈ names) : (job.round source p).2.RecordedIn names := by
  obtain ⟨_, hh⟩ := job.helpersSearched_spec source p
  obtain ⟨_, ha⟩ := job.ambiguousSearched_spec source p
  have hcompiled : (job.compiled source p).RecordedIn names := by
    intro kind n hs
    rw [get?_compiled] at hs
    split at hs
    · rename_i hm
      exact hr _ hm
    · exact hp kind n hs
  have hready := ha.recordedIn hc (hh.recordedIn hc hcompiled)
  have ends := job.round_ends source p
  generalize job.round source p = result at ends ⊢
  cases ends with
  | rejected => exact hcompiled
  | missing _ searched =>
    intro kind n hs
    exact hready kind n (searched.table ▸ hs)
  | coded _ searched => exact searched.recordedIn hc hready

/-- **A round that is followed by another searches a symbol** that nobody had searched. -/
theorem attempted_of_again {code : String} {again : Bool} {later : Progress}
    (h : job.round source p = (.ok (code, again), later)) (hb : again = true) :
    ∃ kind n, p.table.isAttempted kind n = false ∧ later.table.isAttempted kind n = true := by
  have ends := job.round_ends source p
  obtain ⟨_, hh⟩ := job.helpersSearched_spec source p
  obtain ⟨_, ha⟩ := job.ambiguousSearched_spec source p
  rw [h] at ends
  cases ends with
  | coded _ searched =>
    rcases (Bool.or_eq_true _ _).mp hb with hb | hb
    · rcases (Bool.or_eq_true _ _).mp hb with hb | hb
      · obtain ⟨n, hn, _⟩ := hh.anything.mp hb
        exact ⟨.helper, n, SymbolTable.not_isAttempted_of_pending (job.le_compiled source p) hn,
          SymbolTable.isAttempted_of_le (le_trans ha.le searched.le) (hh.isAttempted hn)⟩
      · obtain ⟨n, hn, _⟩ := ha.anything.mp hb
        exact ⟨.ambiguous, n,
          SymbolTable.not_isAttempted_of_pending (job.le_helpersSearched source p) hn,
          SymbolTable.isAttempted_of_le searched.le (ha.isAttempted hn)⟩
    · obtain ⟨n, hn, _⟩ := searched.anything.mp hb
      exact ⟨.partialTemplate, n,
        SymbolTable.not_isAttempted_of_pending (job.le_ambiguousSearched source p) hn,
        searched.isAttempted hn⟩

/-! ## 3. A run -/

/-- The symbols of a set that were searched. -/
def attemptedIn (names : Finset (SymbolKind × String)) (table : SymbolTable) :
    Finset (SymbolKind × String) :=
  names.filter fun symbol => table.isAttempted symbol.1 symbol.2 = true

/-- One more symbol of the set was searched. -/
theorem card_attemptedIn_lt {names : Finset (SymbolKind × String)} {table later : SymbolTable}
    (hle : table ≤ later) {kind : SymbolKind} {n : String} (hm : (kind, n) ∈ names)
    (hf : table.isAttempted kind n = false) (ht : later.isAttempted kind n = true) :
    (attemptedIn names table).card < (attemptedIn names later).card := by
  refine Finset.card_lt_card (Finset.ssubset_iff_subset_ne.mpr ⟨fun symbol hs => ?_, fun e => ?_⟩)
  · obtain ⟨hs, ha⟩ := Finset.mem_filter.mp hs
    exact Finset.mem_filter.mpr ⟨hs, SymbolTable.isAttempted_of_le hle ha⟩
  · have hl : (kind, n) ∈ attemptedIn names later := Finset.mem_filter.mpr ⟨hm, ht⟩
    rw [← e] at hl
    have := (Finset.mem_filter.mp hl).2
    rw [hf] at this
    cases this

/-- **A run that meets finitely many symbols ends**, after at most one round for each symbol that was not
    searched yet, and one more. Its searches are of symbols that nobody has searched, each once. -/
theorem rounds_of_finite (names : Finset (SymbolKind × String)) (p : Progress)
    (hn : ∀ q, job.Reached source p q → q.RecordedIn names) :
    ∃ result more, job.rounds source p = some result ∧ SearchedOnce more p result.2 ∧
      result.2.passes + (attemptedIn names p.table).card ≤ p.passes + names.card + 1 := by
  have hc : (attemptedIn names p.table).card ≤ names.card :=
    Finset.card_le_card (Finset.filter_subset _ _)
  -- on the number of symbols of the set that were not searched
  induction hd : names.card - (attemptedIn names p.table).card using Nat.strong_induction_on
    generalizing p with
  | _ d ih =>
    obtain ⟨more, hm, ha⟩ := job.round_once source p
    have hp := job.passes_round source p
    rcases hr : job.round source p with ⟨error | ⟨code, again⟩, later⟩
    · rw [hr] at hm hp
      refine ⟨_, more, rounds_of_error hr, hm, ?_⟩
      dsimp only at hp ⊢
      omega
    rw [hr] at hm hp ha
    dsimp only at hm hp ha
    cases again with
    | false =>
      refine ⟨_, more, rounds_of_done hr, hm.told (job.finish_told code later), ?_⟩
      show later.passes + _ ≤ _
      omega
    | true =>
      obtain ⟨kind, n, hf, ht⟩ := attempted_of_again hr rfl
      have hk : (kind, n) ∈ names :=
        hn _ (.again .start hr) kind n (SymbolTable.isSome_of_isAttempted ht)
      have hlt := card_attemptedIn_lt hm.le hk hf ht
      have hl : (attemptedIn names later.table).card ≤ names.card :=
        Finset.card_le_card (Finset.filter_subset _ _)
      obtain ⟨result, rest, he, hrest, hpasses⟩ :=
        ih (names.card - (attemptedIn names later.table).card) (by omega)
          (job.enter "Recompiling" later) (fun q hq => hn q (.head hr hq)) hl rfl
      refine ⟨result, more ++ rest, (rounds_of_again hr).trans he,
        hm.append (ha ⟨_, rfl⟩) (hrest.ofTold (job.enter_told _ _)), ?_⟩
      have hpasses : result.2.passes + (attemptedIn names later.table).card ≤
        later.passes + names.card + 1 := hpasses
      omega

/-- **A compiler that asks about finitely many symbols** records no others. -/
theorem recordedIn_of_reached {names : Finset (SymbolKind × String)} {start q : Progress}
    (hc : ∀ n, (.ambiguous, n) ∈ names → (.helper, n) ∈ names) (hs : start.RecordedIn names)
    (hr : ∀ p, ∀ entry ∈ job.entries source p, entry ∈ names) (h : job.Reached source start q) :
    q.RecordedIn names := by
  induction h with
  | start => exact hs
  | again before round ih =>
    have := recordedIn_round hc ih (hr _)
    rw [round] at this
    exact this

/-- **However a compiler behaves, a job ends if the symbols of its run are finitely many**, after at most
    one round more than there are symbols; and no symbol is looked for twice. It is enough that the set
    holds what is recorded when a round begins. -/
theorem settles_within_names (job : Job) (source : String) (registry : Registry) (journal : Journal)
    (names : Finset (SymbolKind × String))
    (recorded : ∀ q, job.Reached source { registry, journal } q → q.RecordedIn names) :
    ∃ result searched, job.rounds source { registry, journal } = some result ∧
      job.settle source registry journal = result ∧
      result.2.passes ≤ names.card + 1 ∧
      result.2.journal.searches = journal.searches ++ searched ∧ searched.Nodup := by
  obtain ⟨result, searched, hr, hs, hp⟩ :=
    rounds_of_finite names { registry, journal } recorded
  refine ⟨result, searched, hr, settle_of_rounds hr, ?_, hs.searches, hs.nodup⟩
  have h : result.2.passes + _ ≤ 0 + names.card + 1 := hp
  omega

/-- A job whose compiler asks about a helper and a partial by turns, and where all is found. -/
def takingTurns : Job where
  compiler pass _ _ := .code
    (if pass % 2 = 1 then .symbol .helper .helpers "a" else .symbol .partialTemplate .partials "b")
  plan := {
    resolver := fun _ _ request => .ok ⟨request⟩
    config := {}
    templateDir := ⟨"."⟩ }
  name := "turns"
  suggest _ := []

/-- The job that takes turns records its two symbols only, and ends within three rounds. -/
theorem settles_within_names_takingTurns :
    (∀ q, takingTurns.Reached "x" {} q →
      q.RecordedIn {(.helper, "a"), (.partialTemplate, "b")}) ∧
    ∃ result searched, takingTurns.rounds "x" {} = some result ∧
      takingTurns.settle "x" {} [] = result ∧ result.2.passes ≤ 3 ∧
      result.2.journal.searches = [] ++ searched ∧ searched.Nodup := by
  have recorded (q : Progress) (h : takingTurns.Reached "x" {} q) :
      q.RecordedIn {(.helper, "a"), (.partialTemplate, "b")} := by
    refine recordedIn_of_reached (by simp) (fun kind n h => ?_) (fun p entry he => ?_) h
    · simp at h
    · have hr : takingTurns.references "x" (takingTurns.begun p) =
          [if (takingTurns.begun p).passes % 2 = 1 then .symbol .helper .helpers "a"
            else .symbol .partialTemplate .partials "b"] := by
        rw [references, if_neg (by decide)]
        rfl
      rw [entries, hr] at he
      split at he
      · simp [Reference.symbol?] at he
        simp [he]
      · simp [Reference.symbol?, isProvidedPartial] at he
        simp [he]
  refine ⟨recorded, ?_⟩
  have h := settles_within_names takingTurns "x" {} [] _ recorded
  rwa [Finset.card_pair (by decide)] at h

end Job

end Stache
