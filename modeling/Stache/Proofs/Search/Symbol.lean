import Stache.Proofs.Search.Journal
import Stache.Search.Symbol

/-!
# What a search finds

* `SearchPlan.Finds` -- a search that begins after so many probes has one that is answered by a file that
  is not excluded;
* `isSome_search` -- a search finds something exactly then, whatever the other probes come to;
* `search_journal` -- a search is written down as such, and no other search is.
-/

namespace Stache

namespace SearchPlan

variable (plan : SearchPlan)

/-- A search that begins after so many probes meets a file that is not excluded: with some request, in
    some directory. The requests are tried in order, each in all directories. -/
def FindsAmong (kind : SymbolKind) (requests : List String) (made : Nat) : Prop :=
  ∃ (i : Nat) (request : String) (j : Nat) (context path : Path),
    requests[i]? = some request ∧ (plan.contexts kind)[j]? = some context ∧
    plan.resolver (made + (i * (plan.contexts kind).length + j)) context request = .ok path ∧
    plan.config.excludes path = false

/-- A search for a symbol that begins after so many probes finds it. -/
def Finds (kind : SymbolKind) (name : String) (made : Nat) : Prop :=
  plan.FindsAmong kind (plan.requests kind name) made

/-! ## 1. One request -/

/-- The outcome of a search in some directories: what it finds is a file that is not excluded; if it finds
    nothing, no probe was answered by such a file, and every directory was probed. -/
structure Looked (request : String) (contexts : List Path) (journal : Journal)
    (result : Option Path × Journal) : Prop where
  hit : ∀ path, result.1 = some path → plan.config.excludes path = false ∧
    ∃ (j : Nat) (context : Path), contexts[j]? = some context ∧
      plan.resolver (journal.probeCount + j) context request = .ok path
  miss : result.1 = none → ∀ (j : Nat) (context path : Path), contexts[j]? = some context →
    plan.resolver (journal.probeCount + j) context request = .ok path →
    plan.config.excludes path = true
  further : ∃ probes, journal.ProbedFurther result.2 probes ∧
    (result.1 = none → probes = contexts.length)

variable {plan}

/-- A directory that is passed over may be put in front. -/
theorem Looked.cons {request : String} {contexts : List Path} {context : Path}
    {journal later : Journal} {result : Option Path × Journal}
    (h : plan.Looked request contexts later result) (hl : journal.ProbedFurther later 1)
    (hc : ∀ path, plan.resolver journal.probeCount context request = .ok path →
      plan.config.excludes path = true) :
    plan.Looked request (context :: contexts) journal result := by
  have shift (j : Nat) : later.probeCount + j = journal.probeCount + (j + 1) := by
    rw [hl.probeCount]
    omega
  refine ⟨fun path e => ?_, fun e j other path hj hr => ?_, ?_⟩
  · obtain ⟨hx, j, other, hj, hr⟩ := h.hit path e
    exact ⟨hx, j + 1, other, hj, shift j ▸ hr⟩
  · cases j with
    | zero =>
      cases hj
      exact hc path hr
    | succ j => exact h.miss e j other path hj (shift j ▸ hr)
  · obtain ⟨probes, hp, hn⟩ := h.further
    refine ⟨1 + probes, hl.trans hp, fun e => ?_⟩
    rw [hn e, List.length_cons, Nat.add_comm]

variable (plan)

/-- **The search in some directories.** -/
theorem searchContexts_spec (kind : SymbolKind) (request : String) (contexts : List Path)
    (journal : Journal) :
    plan.Looked request contexts journal
      (plan.searchContexts kind request journal contexts) := by
  induction contexts generalizing journal with
  | nil => exact ⟨nofun, nofun, 0, .ofAgrees (.logIf journal _ _ _), fun _ => rfl⟩
  | cons context contexts ih =>
    -- the first message tells nothing, so the probe has the same number
    have hl := Journal.Agrees.logIf journal plan.config.debug .debug
      ("Attempting to resolve " ++ kind.label ++ " " ++ request ++ " in " ++ context.text)
    simp only [searchContexts, ModuleResolver.probe, hl.probeCount]
    have hp (probe : Probe) := (Journal.ProbedFurther.ofAgrees hl).trans (.probed _ probe)
    cases hr : plan.resolver journal.probeCount context request with
    | error error =>
      refine (ih _).cons ((hp _).trans (.ofAgrees (.log _ .trace _))) fun path e => ?_
      rw [hr] at e
      cases e
    | ok path =>
      dsimp only
      cases hx : plan.config.excludes path with
      | true =>
        refine (ih _).cons ((hp _).logIf _ _ _) fun other e => ?_
        rw [hr] at e
        cases e
        exact hx
      | false =>
        refine ⟨?_, nofun, 1, (hp _).logIf _ _ _, nofun⟩
        rintro _ ⟨⟩
        exact ⟨hx, 0, context, rfl, hr⟩

/-! ## 2. All requests -/

/-- The first request meets a file, or one of the others does once it has been tried everywhere. -/
theorem findsAmong_cons (kind : SymbolKind) (request : String) (requests : List String)
    (made : Nat) :
    plan.FindsAmong kind (request :: requests) made ↔
      (∃ (j : Nat) (context path : Path), (plan.contexts kind)[j]? = some context ∧
        plan.resolver (made + j) context request = .ok path ∧
        plan.config.excludes path = false) ∨
      plan.FindsAmong kind requests (made + (plan.contexts kind).length) := by
  have shift (i j : Nat) : made + ((i + 1) * (plan.contexts kind).length + j) =
      made + (plan.contexts kind).length + (i * (plan.contexts kind).length + j) := by
    rw [Nat.succ_mul]
    omega
  constructor
  · rintro ⟨i, other, j, context, path, hi, hj, hr, hx⟩
    cases i with
    | zero =>
      cases hi
      rw [Nat.zero_mul, Nat.zero_add] at hr
      exact .inl ⟨j, context, path, hj, hr, hx⟩
    | succ i => exact .inr ⟨i, other, j, context, path, hi, hj, shift i j ▸ hr, hx⟩
  · rintro (⟨j, context, path, hj, hr, hx⟩ | ⟨i, other, j, context, path, hi, hj, hr, hx⟩)
    · refine ⟨0, request, j, context, path, rfl, hj, ?_, hx⟩
      rwa [Nat.zero_mul, Nat.zero_add]
    · exact ⟨i + 1, other, j, context, path, hi, hj, shift i j ▸ hr, hx⟩

/-- **The search for some requests**, each in all directories. -/
theorem searchRequests_spec (kind : SymbolKind) (requests : List String) (journal : Journal) :
    ((plan.searchRequests kind journal requests).1.isSome = true ↔
      plan.FindsAmong kind requests journal.probeCount) ∧
    (∀ path, (plan.searchRequests kind journal requests).1 = some path →
      plan.config.excludes path = false) ∧
    ∃ probes, journal.ProbedFurther (plan.searchRequests kind journal requests).2 probes := by
  induction requests generalizing journal with
  | nil => exact ⟨by simp [searchRequests, FindsAmong], nofun, 0, .ofAgrees (.refl journal)⟩
  | cons request requests ih =>
    have hs := plan.searchContexts_spec kind request (plan.contexts kind) journal
    simp only [searchRequests, findsAmong_cons]
    generalize plan.searchContexts kind request journal (plan.contexts kind) = result at hs
    obtain ⟨probes, hp, hn⟩ := hs.further
    obtain ⟨_ | path, later⟩ := result
    · obtain ⟨hi, hx, more, hm⟩ := ih later
      have hc : later.probeCount = journal.probeCount + (plan.contexts kind).length := by
        rw [hp.probeCount, hn rfl]
      refine ⟨?_, hx, probes + more, hp.trans hm⟩
      rw [hi, hc]
      constructor
      · exact .inr
      · rintro (⟨j, context, path, hj, hr, hx⟩ | h)
        · rw [hs.miss rfl j context path hj hr] at hx
          cases hx
        · exact h
    · obtain ⟨hx, j, context, hj, hr⟩ := hs.hit path rfl
      refine ⟨⟨fun _ => .inl ⟨j, context, path, hj, hr, hx⟩, fun _ => rfl⟩, ?_, probes, hp⟩
      rintro _ ⟨⟩
      exact hx

/-! ## 3. A symbol -/

/-- **A search finds something exactly if some probe of it is answered by a file that is not excluded.** -/
theorem isSome_search (kind : SymbolKind) (name : String) (journal : Journal) :
    (plan.search kind name journal).1.isSome = true ↔ plan.Finds kind name journal.probeCount := by
  have h := (plan.searchRequests_spec kind (plan.requests kind name) (journal.search kind name)).1
  rwa [Journal.probeCount_search] at h

/-- What is found is not excluded. -/
theorem excludes_of_search {kind : SymbolKind} {name : String} {journal : Journal} {path : Path}
    (h : (plan.search kind name journal).1 = some path) : plan.config.excludes path = false :=
  (plan.searchRequests_spec kind (plan.requests kind name) _).2.1 path h

/-- **A search is written down as such**, and no other search is. -/
theorem search_journal (kind : SymbolKind) (name : String) (journal : Journal) :
    ∃ probes, (journal.search kind name).ProbedFurther (plan.search kind name journal).2 probes :=
  (plan.searchRequests_spec kind (plan.requests kind name) _).2.2

theorem searches_search (kind : SymbolKind) (name : String) (journal : Journal) :
    (plan.search kind name journal).2.searches = journal.searches ++ [(kind, name)] := by
  obtain ⟨probes, h⟩ := plan.search_journal kind name journal
  rw [h.searches, Journal.searches_search]

/-- Afterwards the number of probes before the search is on record. -/
theorem probesBefore_search (kind other : SymbolKind) (name n : String) (journal : Journal) :
    (plan.search kind name journal).2.probesBefore other n =
      if kind = other ∧ name = n then journal.probeCount else journal.probesBefore other n := by
  obtain ⟨probes, h⟩ := plan.search_journal kind name journal
  rw [h.probesBefore, Journal.probesBefore_search]

/-- **If the resolver gives the same answers at any time**, a symbol is found if one of its requests leads
    from one of the directories to a file that is not excluded. -/
theorem finds_of_steady (steady : ∀ made, plan.resolver made = plan.resolver 0) (kind : SymbolKind)
    (name : String) (made : Nat) :
    plan.Finds kind name made ↔
      ∃ request ∈ plan.requests kind name, ∃ context ∈ plan.contexts kind, ∃ path,
        plan.resolver 0 context request = .ok path ∧ plan.config.excludes path = false := by
  constructor
  · rintro ⟨_, request, _, context, path, hi, hj, hr, hx⟩
    rw [steady] at hr
    exact ⟨request, List.mem_of_getElem? hi, context, List.mem_of_getElem? hj, path, hr, hx⟩
  · rintro ⟨request, hi, context, hj, path, hr, hx⟩
    obtain ⟨i, hi⟩ := List.getElem?_of_mem hi
    obtain ⟨j, hj⟩ := List.getElem?_of_mem hj
    exact ⟨i, request, j, context, path, hi, hj, steady _ ▸ hr, hx⟩

/-- Both plans ask a resolver that gives the same answers at any time, for the same requests in the same
    directories, and they exclude the same files. -/
structure Alike (plan other : SearchPlan) : Prop where
  steady : ∀ made, plan.resolver made = plan.resolver 0
  resolver : other.resolver = plan.resolver
  excludes : other.config.excludes = plan.config.excludes
  contexts : other.contexts = plan.contexts
  requests : other.requests = plan.requests

variable {plan} in
/-- **Searches of such plans come to the same** whenever they are made. -/
theorem Alike.search_eq {other : SearchPlan} (h : plan.Alike other) (kind : SymbolKind) (name : String)
    (a b : Journal) : (other.search kind name b).1 = (plan.search kind name a).1 := by
  have contexts (request : String) (contexts : List Path) (a b : Journal) :
      (other.searchContexts kind request b contexts).1 =
        (plan.searchContexts kind request a contexts).1 := by
    induction contexts generalizing a b with
    | nil => rfl
    | cons context contexts ih =>
      simp only [searchContexts, ModuleResolver.probe, h.resolver, h.steady (Journal.probeCount _),
        h.excludes]
      cases plan.resolver 0 context request with
      | error error => exact ih _ _
      | ok path =>
        dsimp only
        split
        · exact ih _ _
        · rfl
  have requests (requests : List String) (a b : Journal) :
      (other.searchRequests kind b requests).1 = (plan.searchRequests kind a requests).1 := by
    induction requests generalizing a b with
    | nil => rfl
    | cons request requests ih =>
      have hc := contexts request (plan.contexts kind) a b
      unfold searchRequests
      rw [h.contexts]
      generalize plan.searchContexts kind request a (plan.contexts kind) = first at hc ⊢
      generalize other.searchContexts kind request b (plan.contexts kind) = second at hc ⊢
      obtain ⟨found, later⟩ := first
      obtain ⟨found', later'⟩ := second
      cases hc
      cases found with
      | none => exact ih later later'
      | some path => rfl
  unfold search
  rw [h.requests]
  exact requests _ _ _

/-- If the resolver gives the same answers at any time, a search comes to the same whenever it is made. -/
theorem search_of_steady (steady : ∀ made, plan.resolver made = plan.resolver 0) (kind : SymbolKind)
    (name : String) (a b : Journal) :
    (plan.search kind name a).1 = (plan.search kind name b).1 :=
  have h : plan.Alike plan := ⟨steady, rfl, rfl, rfl, rfl⟩
  h.search_eq kind name b a

/-! ## 4. Symbols of one kind -/

/-- The outcomes for some names with one more name in front. -/
theorem cons_outcomes {α : Type} {name : String} {names : List String} (hm : name ∉ names)
    (outcome : α) (found : String → α) :
    (name, outcome) :: names.map (fun n => (n, found n)) =
      (name :: names).map fun n => (n, if n = name then outcome else found n) := by
  rw [List.map_cons, if_pos rfl]
  refine congrArg _ (List.map_congr_left fun n hmem => ?_)
  have hne : n ≠ name := fun e => hm (e ▸ hmem)
  rw [if_neg hne]

/-- Some search for a symbol comes to this. -/
def Outcome (kind : SymbolKind) (name : String) (result : Option Path) : Prop :=
  ∃ journal, (plan.search kind name journal).1 = result

theorem Outcome.unique {plan : SearchPlan} (steady : ∀ made, plan.resolver made = plan.resolver 0)
    {kind : SymbolKind} {name : String} {result other : Option Path}
    (h : plan.Outcome kind name result) (h' : plan.Outcome kind name other) : result = other := by
  obtain ⟨_, rfl⟩ := h
  obtain ⟨_, rfl⟩ := h'
  exact plan.search_of_steady steady kind name _ _

/-- **The search for several symbols**: each of them once, in order; `found` tells where they are. -/
theorem searchAll_spec (kind : SymbolKind) (names : List String) (journal : Journal)
    (hn : names.Nodup) :
    ∃ found : String → Option Path,
      (plan.searchAll kind journal names).1 = names.map (fun n => (n, found n)) ∧
      (plan.searchAll kind journal names).2.searches = journal.searches ++ names.map (kind, ·) ∧
      ∀ n ∈ names, plan.Outcome kind n (found n) := by
  induction names generalizing journal with
  | nil => exact ⟨fun _ => none, rfl, by simp [searchAll], nofun⟩
  | cons name names ih =>
    obtain ⟨hm, hn⟩ := List.nodup_cons.mp hn
    obtain ⟨found, h₁, h₂, h₃⟩ := ih (plan.search kind name journal).2 hn
    simp only [searchAll]
    refine ⟨fun n => if n = name then (plan.search kind name journal).1 else found n, ?_, ?_,
      fun n hmem => ?_⟩
    · rw [h₁, cons_outcomes hm]
    · rw [h₂, searches_search, List.append_assoc]
      rfl
    · dsimp only
      by_cases e : n = name
      · rw [if_pos e, e]
        exact ⟨journal, rfl⟩
      · rw [if_neg e]
        exact h₃ n ((List.mem_cons.mp hmem).resolve_left e)

/-- What is not among the names is as often on record as before. -/
theorem probesBefore_searchAll (kind : SymbolKind) {names : List String} {n : String} (hn : n ∉ names)
    (journal : Journal) :
    (plan.searchAll kind journal names).2.probesBefore kind n = journal.probesBefore kind n := by
  induction names generalizing journal with
  | nil => rfl
  | cons name names ih =>
    rw [List.mem_cons, not_or] at hn
    obtain ⟨hne, hn⟩ := hn
    refine (ih hn (plan.search kind name journal).2).trans ?_
    rw [probesBefore_search, if_neg fun h => hne h.2.symm]

/-- **Each of several searches finds something exactly if** its probes do that come after those on record. -/
theorem isSome_searchAll (kind : SymbolKind) {names : List String} (hn : names.Nodup) (journal : Journal)
    {name : String} {found : Option Path}
    (h : (name, found) ∈ (plan.searchAll kind journal names).1) :
    found.isSome = true ↔
      plan.Finds kind name ((plan.searchAll kind journal names).2.probesBefore kind name) := by
  induction names generalizing journal with
  | nil => cases h
  | cons first names ih =>
    obtain ⟨hm, hn⟩ := List.nodup_cons.mp hn
    rcases List.mem_cons.mp h with h | h
    · obtain ⟨rfl, hfound⟩ := Prod.mk.inj h
      have hfound : found = (plan.search kind name journal).1 := hfound
      rw [hfound, isSome_search, searchAll, probesBefore_searchAll plan kind hm, probesBefore_search,
        if_pos ⟨rfl, rfl⟩]
    · exact ih hn (plan.search kind first journal).2 h

end SearchPlan

end Stache
