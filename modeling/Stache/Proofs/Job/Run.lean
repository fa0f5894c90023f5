import Stache.Proofs.Job.Round

/-!
# A run

The rounds of a job form a run. `Job.Reached` are the states in which its rounds begin, one after the
other, whether or not there is an end of it; a run that ends does so with the round of such a state:
`rounds_last`. What every round keeps, the whole job keeps: `settle_keeps`.
-/

namespace Stache

namespace Job

variable {job : Job} {source : String} {p later : Progress}

/-! ## 1. One round after the other -/

theorem rounds_of_error {error : LoadError} (h : job.round source p = (.error error, later)) :
    job.rounds source p = some (.error error, later) := by
  rw [rounds, h]

theorem rounds_of_again {code : String} (h : job.round source p = (.ok (code, true), later)) :
    job.rounds source p = job.rounds source (job.enter "Recompiling" later) := by
  rw [rounds, h]

theorem rounds_of_done {code : String} (h : job.round source p = (.ok (code, false), later)) :
    job.rounds source p =
      some (.ok (job.finish code later).1, (job.finish code later).2) := by
  rw [rounds, h]

/-- The end of a job is worth two messages. -/
theorem finish_told (job : Job) (code : String) (p : Progress) : p.Told (job.finish code p).2 :=
  ⟨⟨rfl, rfl, (Journal.Agrees.log _ _ _).trans (.log _ _ _)⟩, rfl⟩

/-- A run that ends settles the template as it does. -/
theorem settle_of_rounds {registry : Registry} {journal : Journal}
    {result : Except LoadError Settled × Progress}
    (h : job.rounds source { registry, journal } = some result) :
    job.settle source registry journal = result := by
  rw [settle, h]
  rfl

/-- A template that settles is the end of a run. -/
theorem rounds_of_settle {registry : Registry} {journal : Journal} {settled : Settled}
    (h : job.settle source registry journal = (.ok settled, later)) :
    job.rounds source { registry, journal } = some (.ok settled, later) := by
  rw [settle] at h
  cases hr : job.rounds source { registry, journal } with
  | none =>
    rw [hr] at h
    cases h
  | some result =>
    rw [hr] at h
    exact congrArg some h

/-! ## 2. The states of a run -/

variable (job source) in
/-- The states in which the rounds of a run begin. -/
inductive Reached (start : Progress) : Progress → Prop where
  /-- The first round begins in the first state. -/
  | start : Reached start start
  /-- Another round begins if the one before found something. -/
  | again {p later : Progress} {code : String} (before : Reached start p)
    (round : job.round source p = (.ok (code, true), later)) :
    Reached start (job.enter "Recompiling" later)

variable (job source) in
/-- The end of a run, given the state in which its last round begins. -/
inductive Ends (p : Progress) : Except LoadError Settled × Progress → Prop where
  /-- The round fails. -/
  | failed {error : LoadError} {later : Progress}
    (round : job.round source p = (.error error, later)) : Ends p (.error error, later)
  /-- The round finds nothing. -/
  | settled {code : String} {later : Progress}
    (round : job.round source p = (.ok (code, false), later)) :
    Ends p (.ok (job.finish code later).1, (job.finish code later).2)

theorem Reached.head {code : String} (h : job.round source p = (.ok (code, true), later))
    {q : Progress} (hq : job.Reached source (job.enter "Recompiling" later) q) :
    job.Reached source p q := by
  induction hq with
  | start => exact .again .start h
  | again _ round ih => exact .again ih round

/-- **A run ends with a round that fails or finds nothing.** -/
theorem rounds_last {result : Except LoadError Settled × Progress}
    (h : job.rounds source p = some result) :
    ∃ q, job.Reached source p q ∧ job.Ends source q result := by
  refine rounds.partial_correctness job source
    (fun p result => ∃ q, job.Reached source p q ∧ job.Ends source q result) ?_ p result h
  intro rounds ih p result hr
  dsimp only at hr
  split at hr
  · rename_i round
    cases hr
    exact ⟨p, .start, .failed round⟩
  · rename_i round
    obtain ⟨q, hq, he⟩ := ih _ _ hr
    exact ⟨q, hq.head round, he⟩
  · rename_i round
    cases hr
    exact ⟨p, .start, .settled round⟩

/-! ## 3. What a job keeps -/

section Keeps

variable {P : Progress → Prop} (hround : ∀ q, P q → P (job.round source q).2)
  (htold : ∀ q last, P q → q.Told last → P last)

include hround htold

theorem reached_keeps (hp : P p) {q : Progress} (hq : job.Reached source p q) : P q := by
  induction hq with
  | start => exact hp
  | @again q last code _ round ih =>
    have hlast := hround q ih
    rw [round] at hlast
    exact htold _ _ hlast (job.enter_told "Recompiling" last)

/-- **What every round and every message keeps, a job keeps**, whatever it comes to. If the template settles,
    its table is the one that the job leaves. -/
theorem settle_keeps {registry : Registry} {journal : Journal} (hstart : P { registry, journal })
    {result : Except LoadError Settled} (h : job.settle source registry journal = (result, later)) :
    P later ∧ ∀ settled, result = .ok settled → settled.table = later.table := by
  rw [settle] at h
  cases hrounds : job.rounds source { registry, journal } with
  | none =>
    rw [hrounds] at h
    cases h
    refine ⟨hstart, ?_⟩
    rintro _ ⟨⟩
  | some last =>
    rw [hrounds] at h
    obtain rfl : last = (result, later) := h
    obtain ⟨q, hq, hend⟩ := rounds_last hrounds
    have hlast := hround q (reached_keeps hround htold hstart hq)
    cases hend with
    | failed round =>
      rw [round] at hlast
      refine ⟨hlast, ?_⟩
      rintro _ ⟨⟩
    | @settled code last round =>
      rw [round] at hlast
      refine ⟨htold _ _ hlast (finish_told job code last), ?_⟩
      rintro _ ⟨⟩
      rfl

end Keeps

end Job

end Stache
