import Stache.Proofs.Job.Run

/-!
# What a job does not depend on

Messages are written and never read, and the store is no matter of a job. So two jobs whose searches come to
the same settle a template in the same way, whatever happened before.

* `Job.Alike` -- the same compiler, the same outcomes of searches, the same hints;
* `round_alike` -- one round;
* `settle_alike` -- **a template that one job settles, the other settles in the same way**.
-/

namespace Stache

/-- The states differ in their journals at most. -/
structure Progress.Alike (p q : Progress) : Prop where
  table : q.table = p.table
  registry : q.registry = p.registry
  passes : q.passes = p.passes

namespace Progress.Alike

variable {p q later other : Progress}

/-- Messages are no matter. -/
theorem told (h : p.Alike q) (hp : p.Told later) (hq : q.Told other) : later.Alike other where
  table := by rw [hq.table, hp.table, h.table]
  registry := by rw [hq.registry, hp.registry, h.registry]
  passes := by rw [hq.passes, hp.passes, h.passes]

theorem noteHelper (h : p.Alike q) (result : String × Option Path) :
    (Job.noteHelper p result).Alike (Job.noteHelper q result) := by
  obtain ⟨ht, hr, hp⟩ := h
  obtain ⟨name, found⟩ := result
  cases found with
  | none => exact ⟨congrArg (·.markUnresolved .helper name) ht, hr, hp⟩
  | some path =>
    exact ⟨congrArg (·.markResolved .helper name path) ht, congrArg (·.record name path) hr, hp⟩

theorem noteAmbiguous (h : p.Alike q) (result : String × Option Path) :
    (Job.noteAmbiguous p result).Alike (Job.noteAmbiguous q result) := by
  obtain ⟨ht, hr, hp⟩ := h
  obtain ⟨name, found⟩ := result
  cases found with
  | none => exact ⟨congrArg (·.markUnresolved .ambiguous name) ht, hr, hp⟩
  | some path => exact ⟨congrArg (·.promote name path) ht, congrArg (·.record name path) hr, hp⟩

theorem notePartial (h : p.Alike q) (result : String × Option Path) :
    (Job.notePartial p result).Alike (Job.notePartial q result) := by
  obtain ⟨name, found⟩ := result
  cases found with
  | none => exact h
  | some path =>
    exact ⟨congrArg (·.markResolved .partialTemplate name path) h.table, h.registry, h.passes⟩

/-- What is written down of several outcomes is the same. -/
theorem foldl {note : Progress → String × Option Path → Progress}
    (step : ∀ {p q : Progress}, p.Alike q → ∀ result, (note p result).Alike (note q result))
    (results : List (String × Option Path)) (h : p.Alike q) :
    (results.foldl note p).Alike (results.foldl note q) := by
  induction results generalizing p q with
  | nil => exact h
  | cons result results ih => exact ih (step h result)

end Progress.Alike

/-- The jobs have the same compiler, they are told the same, and their searches come to the same at any
    time. They may write other messages. -/
structure Job.Alike (job other : Job) : Prop where
  compiler : other.compiler = job.compiler
  name : other.name = job.name
  known : other.config.knownHelpersOnly = job.config.knownHelpersOnly
  inline : other.config.loadsInline = job.config.loadsInline
  search : ∀ kind n a b, (other.plan.search kind n b).1 = (job.plan.search kind n a).1

namespace Job

variable {job other : Job} {source : String} {p q : Progress}

/-! ## 1. One round -/

theorem compile_alike (hj : job.Alike other) (h : p.Alike q) :
    (other.compile source q).1 = (job.compile source p).1 ∧
      (job.compile source p).2.Alike (other.compile source q).2 := by
  have hd : other.dialogue source q = job.dialogue source p := by
    unfold dialogue
    rw [hj.compiler, hj.known, h.passes, h.registry]
  obtain ⟨htable, hquiet⟩ := job.compile_spec source p
  obtain ⟨htable', hquiet'⟩ := other.compile_spec source q
  constructor
  · by_cases hs : source = ""
    · unfold compile
      rw [if_pos hs, if_pos hs]
    · rw [other.compile_result hs, job.compile_result hs, hd, hj.inline, hj.name, h.table, h.registry]
  · constructor
    case table =>
      rw [htable', htable]
      unfold references
      rw [hd, hj.inline, h.table, h.registry]
    case registry => rw [hquiet'.registry, hquiet.registry, h.registry]
    case passes => rw [hquiet'.passes, hquiet.passes, h.passes]

theorem searchAll_alike (hj : job.Alike other) (kind : SymbolKind) (names : List String) (a b : Journal) :
    (other.plan.searchAll kind b names).1 = (job.plan.searchAll kind a names).1 := by
  induction names generalizing a b with
  | nil => rfl
  | cons name names ih =>
    unfold SearchPlan.searchAll
    dsimp only
    rw [hj.search kind name a b, ih (job.plan.search kind name a).2 (other.plan.search kind name b).2]

theorem searchHelpers_alike (hj : job.Alike other) (h : p.Alike q) :
    (other.searchHelpers q).1 = (job.searchHelpers p).1 ∧
      (job.searchHelpers p).2.Alike (other.searchHelpers q).2 := by
  unfold searchHelpers searchAll
  dsimp only
  rw [h.table, searchAll_alike hj .helper (p.table.pending .helper) p.journal q.journal]
  exact ⟨rfl, .foldl .noteHelper _ ⟨rfl, h.registry, h.passes⟩⟩

theorem searchAmbiguous_alike (hj : job.Alike other) (h : p.Alike q) :
    (other.searchAmbiguous q).1 = (job.searchAmbiguous p).1 ∧
      (job.searchAmbiguous p).2.Alike (other.searchAmbiguous q).2 := by
  unfold searchAmbiguous searchAll
  dsimp only
  rw [h.table, searchAll_alike hj .ambiguous _ p.journal q.journal]
  exact ⟨rfl, .foldl .noteAmbiguous _ ⟨rfl, h.registry, h.passes⟩⟩

/-- Which of the missing partials is reported may differ, but not whether one is. -/
theorem searchPartials_alike (hj : job.Alike other) (h : p.Alike q) :
    (other.searchPartials q).1.toOption = (job.searchPartials p).1.toOption ∧
      (job.searchPartials p).2.Alike (other.searchPartials q).2 := by
  unfold searchPartials searchAll
  dsimp only
  rw [h.table, searchAll_alike hj .partialTemplate _ p.journal q.journal]
  generalize (job.plan.searchAll .partialTemplate p.journal (p.table.pending .partialTemplate)).1 = results
  cases missed results with
  | nil => exact ⟨rfl, .foldl .notePartial results ⟨rfl, h.registry, h.passes⟩⟩
  | cons name names =>
    rw [List.minOn?_cons, List.minOn?_cons]
    exact ⟨rfl, rfl, h.registry, h.passes⟩

/-- **One round** comes to the same, but for the names that are suggested for a missing partial. -/
theorem round_alike (source : String) (hj : job.Alike other) (h : p.Alike q) :
    (other.round source q).1.toOption = (job.round source p).1.toOption ∧
      (job.round source p).2.Alike (other.round source q).2 := by
  have entered (stage : String) {p q : Progress} (h : p.Alike q) :
      (job.enter stage p).Alike (other.enter stage q) :=
    h.told (job.enter_told stage p) (other.enter_told stage q)
  have hbegun : (job.begun p).Alike (other.begun q) :=
    ⟨h.table, h.registry, congrArg (· + 1) h.passes⟩
  obtain ⟨hcode, hcompiled⟩ : (other.compile source (other.begun q)).1 =
      (job.compile source (job.begun p)).1 ∧ (job.compiled source p).Alike (other.compiled source q) := by
    unfold compiled
    exact compile_alike hj hbegun
  obtain ⟨hhelper, hhelpers⟩ : (other.helpersSearched source q).1 = (job.helpersSearched source p).1 ∧
      (job.helpersSearched source p).2.Alike (other.helpersSearched source q).2 := by
    unfold helpersSearched
    exact searchHelpers_alike hj (entered _ hcompiled)
  obtain ⟨hmember, hmembers⟩ : (other.ambiguousSearched source q).1 = (job.ambiguousSearched source p).1 ∧
      (job.ambiguousSearched source p).2.Alike (other.ambiguousSearched source q).2 := by
    unfold ambiguousSearched
    exact searchAmbiguous_alike hj (entered _ hhelpers)
  obtain ⟨hpartial, hpartials⟩ : (other.partialsSearched source q).1.toOption =
      (job.partialsSearched source p).1.toOption ∧
      (job.partialsSearched source p).2.Alike (other.partialsSearched source q).2 := by
    unfold partialsSearched
    exact searchPartials_alike hj (entered _ hmembers)
  rw [round_eq, round_eq, hcode, hhelper, hmember]
  cases (job.compile source (job.begun p)).1 with
  | error error => exact ⟨rfl, hcompiled⟩
  | ok code =>
    dsimp only
    generalize job.partialsSearched source p = first at hpartial hpartials ⊢
    generalize other.partialsSearched source q = second at hpartial hpartials ⊢
    obtain ⟨result, later⟩ := first
    obtain ⟨result', later'⟩ := second
    cases result <;> cases result' <;> cases hpartial
    · exact ⟨rfl, hpartials⟩
    · exact ⟨rfl, hpartials⟩

/-- A round with code comes to the same code. -/
theorem round_alike_ok (hj : job.Alike other) (h : p.Alike q) {code : String} {anything : Bool}
    {later : Progress} (hround : job.round source p = (.ok (code, anything), later)) :
    ∃ later', other.round source q = (.ok (code, anything), later') ∧ later.Alike later' := by
  obtain ⟨hresult, hlater⟩ := round_alike source hj h
  rw [hround] at hresult hlater
  generalize other.round source q = result at hresult hlater
  obtain ⟨result, later'⟩ := result
  cases result with
  | error error => cases hresult
  | ok result =>
    cases hresult
    exact ⟨later', rfl, hlater⟩

/-! ## 2. A run -/

/-- The rounds of the one job are those of the other. -/
theorem rounds_alike (hj : job.Alike other) {start : Progress} (hq : job.Reached source start p)
    {start' : Progress} (h : start.Alike start') :
    ∃ q, p.Alike q ∧ other.rounds source start' = other.rounds source q := by
  induction hq with
  | start => exact ⟨start', h, rfl⟩
  | @again r later code _ round ih =>
    obtain ⟨q, hrq, hrounds⟩ := ih
    obtain ⟨later', hround, hlater⟩ := round_alike_ok hj hrq round
    refine ⟨other.enter "Recompiling" later', ?_, hrounds.trans (rounds_of_again hround)⟩
    exact hlater.told (job.enter_told _ later) (other.enter_told _ later')

/-- **A template that one job settles, the other settles in the same way**, whatever the journals are: with
    the same code, the same table and the same number of rounds, and they leave the same registry. -/
theorem settle_alike (hj : job.Alike other) {registry : Registry} {journal : Journal} {settled : Settled}
    (h : job.settle source registry journal = (.ok settled, p)) (journal' : Journal) :
    ∃ q, other.settle source registry journal' = (.ok settled, q) ∧ q.registry = p.registry := by
  obtain ⟨last, hreached, hend⟩ := rounds_last (rounds_of_settle h)
  cases hend with
  | @settled code later round =>
    have hstart : Progress.Alike { registry, journal } { registry, journal := journal' } := ⟨rfl, rfl, rfl⟩
    obtain ⟨q, hlast, hrounds⟩ := rounds_alike hj hreached hstart
    obtain ⟨later', hround, hlater⟩ := round_alike_ok hj hlast round
    have hfinish : (other.finish code later').1 = (job.finish code later).1 := by
      show Settled.mk code later'.table later'.passes = Settled.mk code later.table later.passes
      rw [hlater.table, hlater.passes]
    refine ⟨(other.finish code later').2, settle_of_rounds ?_, hlater.registry⟩
    rw [hrounds, rounds_of_done hround, hfinish]

end Job

end Stache
