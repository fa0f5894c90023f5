import Stache.Job.Load
import Stache.Proofs.Search.Module
import Stache.Proofs.Search.Symbol

/-!
# The order of a search

A symbol is looked for with one request after the other, and with each of them in one directory after the
other, until a probe is answered by a file that is not excluded. So what is found is told by the least pair of
numbers, that of the request first, and the probes are those up to this pair.

* `SearchPlan.IsRequest`, `SearchPlan.IsContext` -- requests and directories, each with its number;
* `SearchPlan.pairs_schedule` -- the pairs of a symbol, in the order of their numbers;
* `SearchPlan.InOrder`, `SearchPlan.search_inOrder` -- a search goes through the pairs up to the first one that
  leads to a file;
* `FileView.Usable`, `FileView.NoneBefore` -- a pair leads to a file that is not excluded, and no earlier pair
  does;
* `FileView.search_first` -- **a search in a file system finds the file of the least pair that leads to one,
  and makes one probe for each pair up to it**.
-/

namespace Stache

namespace SearchPlan

variable (plan : SearchPlan) (kind : SymbolKind) (name : String)

/-! ## 1. Pairs -/

/-- The requests for a symbol, by numbers. For a partial there is one with each extension. -/
inductive IsRequest : SymbolKind → Nat → String → Prop
  /-- A partial with an extension. -/
  | withExtension {number : Nat} {extension : String} :
    plan.config.extensions[number]? = some extension →
    IsRequest .partialTemplate number (plan.requestFor .partialTemplate name ++ extension)
  /-- A helper, or a name that may be one. -/
  | plain {kind : SymbolKind} :
    kind ≠ .partialTemplate → IsRequest kind 0 (plan.requestFor kind name)

/-- The directories for a symbol, by numbers. That of the template comes first. -/
inductive IsContext : SymbolKind → Nat → Path → Prop
  /-- The directory of the template. -/
  | own {kind : SymbolKind} : IsContext kind 0 plan.templateDir
  /-- A directory of partials. -/
  | ofPartials {number : Nat} {dir : Path} :
    plan.config.partialDirs[number]? = some dir → IsContext .partialTemplate (number + 1) dir
  /-- A directory of helpers. -/
  | ofHelpers {kind : SymbolKind} {number : Nat} {dir : Path} :
    kind ≠ .partialTemplate → plan.config.helperDirs[number]? = some dir →
    IsContext kind (number + 1) dir

theorem requests_schedule :
    Schedule (fun i j : Nat => i < j) (plan.IsRequest name kind) (plan.requests kind name) := by
  have hplain (hkind : kind ≠ .partialTemplate) :
      Schedule (fun i j : Nat => i < j) (plan.IsRequest name kind) [plan.requestFor kind name] := by
    refine (Schedule.ofList _).congr fun number request => ?_
    constructor
    · intro h
      cases number with
      | zero =>
        cases h
        exact .plain hkind
      | succ number => cases h
    · intro h
      cases h with
      | withExtension _ => exact absurd rfl hkind
      | plain _ => rfl
  unfold requests
  cases kind with
  | partialTemplate =>
    refine ((Schedule.ofList _).map _).congr fun number request => ?_
    constructor
    · intro h
      obtain ⟨extension, h, rfl⟩ := h
      exact .withExtension h
    · intro h
      cases h with
      | withExtension h => exact ⟨_, h, rfl⟩
      | plain hkind => exact absurd rfl hkind
  | helper => exact hplain (by decide)
  | ambiguous => exact hplain (by decide)

theorem contexts_schedule :
    Schedule (fun i j : Nat => i < j) (plan.IsContext kind) (plan.contexts kind) := by
  refine (Schedule.ofList _).congr fun number dir => ?_
  unfold contexts
  constructor
  · intro h
    cases number with
    | zero =>
      cases h
      exact .own
    | succ number =>
      cases kind with
      | partialTemplate => exact .ofPartials h
      | helper => exact .ofHelpers (by decide) h
      | ambiguous => exact .ofHelpers (by decide) h
  · intro h
    cases h with
    | own => rfl
    | ofPartials h => exact h
    | ofHelpers hkind h =>
      cases kind with
      | partialTemplate => exact absurd rfl hkind
      | helper => exact h
      | ambiguous => exact h

/-- A request and a directory, by their numbers. -/
def IsPair (key : Nat × Nat) (pair : String × Path) : Prop :=
  plan.IsRequest name kind key.1 pair.1 ∧ plan.IsContext kind key.2 pair.2

/-- Requests, each with all directories, in order. -/
def pairs (requests : List String) : List (String × Path) :=
  requests.flatMap fun request => (plan.contexts kind).map fun context => (request, context)

/-- **The pairs of a symbol, in the order of their numbers.** -/
theorem pairs_schedule :
    Schedule Earlier (plan.IsPair kind name) (plan.pairs kind (plan.requests kind name)) := by
  refine ((plan.requests_schedule kind name).flatMap fun request =>
    (plan.contexts_schedule kind).map fun context => (request, context)).congr fun key pair => ?_
  constructor
  · rintro ⟨request, hr, context, hc, rfl⟩
    exact ⟨hr, hc⟩
  · rintro ⟨hr, hc⟩
    exact ⟨_, hr, _, hc, rfl⟩

/-! ## 2. A search goes through pairs -/

/-- The file that a pair leads to, unless it is excluded. -/
def usable? (pair : String × Path) : Option Path :=
  (plan.resolver 0 pair.2 pair.1).toOption.filter fun path => !plan.config.excludes path

/-- What is written down of the probe for a pair. -/
def probeOf (pair : String × Path) : Probe :=
  ⟨pair.2, pair.1, (plan.resolver 0 pair.2 pair.1).toOption⟩

/-- The outcome of going through some pairs: the first file that is not excluded, and one probe for each
    pair up to it. -/
structure InOrder (pairs : List (String × Path)) (journal : Journal) (result : Option Path × Journal) :
    Prop where
  found : result.1 = pairs.findSome? plan.usable?
  probes : result.2.probes =
    journal.probes ++ (upTo (fun pair => (plan.usable? pair).isSome) pairs).map plan.probeOf

namespace InOrder

variable {plan} {journal later : Journal}

/-- One pair makes one probe. -/
theorem single {pair : String × Path} {found : Option Path}
    (hp : later.probes = journal.probes ++ [plan.probeOf pair]) (hu : plan.usable? pair = found) :
    plan.InOrder [pair] journal (found, later) := by
  refine ⟨?_, ?_⟩
  · rw [List.findSome?_singleton, hu]
  · rw [hp, upTo, upTo, ite_self]
    rfl

/-- Once something is found, what follows is not looked at. -/
theorem stop {front : List (String × Path)} {path : Path}
    (h : plan.InOrder front journal (some path, later)) (back : List (String × Path)) :
    plan.InOrder (front ++ back) journal (some path, later) := by
  have hsome : ∃ pair ∈ front, (plan.usable? pair).isSome = true :=
    List.findSome?_isSome_iff.mp (by rw [← h.found]; rfl)
  refine ⟨?_, ?_⟩
  · rw [List.findSome?_append, ← h.found]
    rfl
  · rw [upTo_append_of_exists hsome]
    exact h.probes

/-- If nothing is found, the search goes on. -/
theorem go {front back : List (String × Path)} {result : Option Path × Journal}
    (h : plan.InOrder front journal (none, later)) (h' : plan.InOrder back later result) :
    plan.InOrder (front ++ back) journal result := by
  have hnone : ∀ pair ∈ front, (plan.usable? pair).isSome = false := fun pair hm => by
    rw [List.findSome?_eq_none_iff.mp h.found.symm pair hm]
    rfl
  have hfront := upTo_append_of_forall hnone []
  rw [List.append_nil, upTo, List.append_nil] at hfront
  refine ⟨?_, ?_⟩
  · rw [List.findSome?_append, ← h.found, Option.none_or]
    exact h'.found
  · have hlater := h.probes
    rw [hfront] at hlater
    rw [h'.probes, hlater, upTo_append_of_forall hnone, List.map_append, List.append_assoc]

end InOrder

variable (steady : ∀ made, plan.resolver made = plan.resolver 0)

include steady in
theorem searchContexts_inOrder (request : String) (contexts : List Path) (journal : Journal) :
    plan.InOrder (contexts.map fun context => (request, context)) journal
      (plan.searchContexts kind request journal contexts) := by
  induction contexts generalizing journal with
  | nil => exact ⟨rfl, ((Journal.Agrees.logIf journal _ _ _).probes).trans (List.append_nil _).symm⟩
  | cons context contexts ih =>
    have hl := Journal.Agrees.logIf journal plan.config.debug .debug
      ("Attempting to resolve " ++ kind.label ++ " " ++ request ++ " in " ++ context.text)
    simp only [searchContexts, ModuleResolver.probe, steady (Journal.probeCount _)]
    generalize Journal.logIf journal _ _ _ = before at hl ⊢
    have hprobe : Journal.probes
        (.probed ⟨context, request, (plan.resolver 0 context request).toOption⟩ :: before) =
        journal.probes ++ [plan.probeOf (request, context)] := by
      rw [Journal.probes_probed, hl.probes]
      rfl
    have husable : plan.usable? (request, context) =
        (plan.resolver 0 context request).toOption.filter fun path => !plan.config.excludes path := rfl
    generalize plan.resolver 0 context request = answer at hprobe husable ⊢
    cases answer with
    | error error =>
      exact (InOrder.single ((Journal.Agrees.log _ _ _).probes.trans hprobe) husable).go (ih _)
    | ok path =>
      dsimp only
      cases hx : plan.config.excludes path with
      | true =>
        refine (InOrder.single ((Journal.Agrees.logIf _ _ _ _).probes.trans hprobe) ?_).go (ih _)
        rw [husable]
        simp [Except.toOption, hx]
      | false =>
        refine (InOrder.single ((Journal.Agrees.logIf _ _ _ _).probes.trans hprobe) ?_).stop _
        rw [husable]
        simp [Except.toOption, hx]

include steady in
theorem searchRequests_inOrder (requests : List String) (journal : Journal) :
    plan.InOrder (plan.pairs kind requests) journal (plan.searchRequests kind journal requests) := by
  induction requests generalizing journal with
  | nil => exact ⟨rfl, (List.append_nil _).symm⟩
  | cons request requests ih =>
    have hs := plan.searchContexts_inOrder kind steady request (plan.contexts kind) journal
    unfold searchRequests pairs
    rw [List.flatMap_cons]
    generalize plan.searchContexts kind request journal (plan.contexts kind) = result at hs ⊢
    obtain ⟨_ | path, later⟩ := result
    · exact hs.go (ih later)
    · exact hs.stop _

include steady in
/-- **A search goes through the pairs of the symbol.** -/
theorem search_inOrder (journal : Journal) :
    plan.InOrder (plan.pairs kind (plan.requests kind name)) journal (plan.search kind name journal) := by
  obtain ⟨hfound, hprobes⟩ := plan.searchRequests_inOrder kind steady (plan.requests kind name)
    (journal.search kind name)
  exact ⟨hfound, by rw [search, hprobes, Journal.probes_search]⟩

/-! ### Time is no matter -/

variable (delay : String → Nat)

theorem searchContexts_delay (request : String) (contexts : List Path) (journal : Journal) :
    { plan with delay }.searchContexts kind request journal contexts =
      plan.searchContexts kind request journal contexts := by
  induction contexts generalizing journal with
  | nil => rfl
  | cons context contexts ih => simp only [searchContexts, ih]

theorem searchRequests_delay (requests : List String) (journal : Journal) :
    { plan with delay }.searchRequests kind journal requests = plan.searchRequests kind journal requests := by
  induction requests generalizing journal with
  | nil => rfl
  | cons request requests ih =>
    rw [searchRequests, searchRequests, searchContexts_delay]
    simp only [ih]
    rfl

/-- **What a search comes to does not depend on how long searches take.** -/
theorem search_delay (journal : Journal) :
    { plan with delay }.search kind name journal = plan.search kind name journal :=
  plan.searchRequests_delay kind delay (plan.requests kind name) (journal.search kind name)

end SearchPlan

/-! ## 3. Searches in a file system -/

namespace FileView

variable (view : FileView) (rules : ModuleRules) (config : Config) (dir : Path) (kind : SymbolKind)
  (name : String)

/-- The search for the symbols of a template in a directory. -/
def searchPlan : SearchPlan where
  resolver := view.moduleResolver rules
  config
  templateDir := dir

/-- A loader searches its file tree. -/
theorem searchPlan_tree (tree : FileTree) (journal : Journal) :
    (Stache.searchPlan config tree dir).search kind name journal =
      (tree.view.searchPlan { directories := config.moduleDirectories } config dir).search kind name journal :=
  SearchPlan.search_delay _ kind name _ journal

/-- The pair of these numbers leads to a file that is not excluded. -/
def Usable (key : Nat × Nat) (path : Path) : Prop :=
  ∃ request context, (view.searchPlan rules config dir).IsPair kind name key (request, context) ∧
    view.Hit rules context request path ∧ config.excludes path = false

/-- No pair of earlier numbers leads to such a file. -/
def NoneBefore (key : Nat × Nat) : Prop :=
  ∀ earlier path, Earlier earlier key → ¬ view.Usable rules config dir kind name earlier path

/-- The probe is that for the pair of these numbers, and it was answered by the hit, if there is one. -/
structure Probes (key : Nat × Nat) (probe : Probe) : Prop where
  pair : (view.searchPlan rules config dir).IsPair kind name key (probe.request, probe.base)
  found : ∀ path, probe.found = some path ↔ view.Hit rules probe.base probe.request path

variable {view rules config dir kind name}

theorem toOption_resolver {pair : String × Path} {path : Path} :
    ((view.searchPlan rules config dir).resolver 0 pair.2 pair.1).toOption = some path ↔
      view.Hit rules pair.2 pair.1 path := by
  rw [← resolveModule_eq_ok]
  show (view.resolveModule rules pair.2 pair.1).toOption = some path ↔ _
  cases view.resolveModule rules pair.2 pair.1 with
  | error error => simp [Except.toOption]
  | ok found => simp [Except.toOption]

theorem usable?_eq_some {pair : String × Path} {path : Path} :
    (view.searchPlan rules config dir).usable? pair = some path ↔
      view.Hit rules pair.2 pair.1 path ∧ config.excludes path = false := by
  unfold SearchPlan.usable?
  rw [Option.filter_eq_some_iff, toOption_resolver, Bool.not_eq_true']
  rfl

theorem usable_iff {key : Nat × Nat} {path : Path} :
    view.Usable rules config dir kind name key path ↔
      ∃ pair, (view.searchPlan rules config dir).IsPair kind name key pair ∧
        (view.searchPlan rules config dir).usable? pair = some path := by
  simp only [Usable, usable?_eq_some, Prod.exists]

theorem noneBefore_iff {key : Nat × Nat} :
    view.NoneBefore rules config dir kind name key ↔
      ∀ earlier pair, Earlier earlier key →
        (view.searchPlan rules config dir).IsPair kind name earlier pair →
        (view.searchPlan rules config dir).usable? pair = none := by
  simp only [NoneBefore, usable_iff, Option.eq_none_iff_forall_ne_some]
  constructor
  · exact fun h earlier pair he hp path hu => h earlier path he ⟨pair, hp, hu⟩
  · rintro h earlier path he ⟨pair, hp, hu⟩
    exact h earlier pair he hp path hu

variable {journal : Journal}

theorem search_eq_some {path : Path} :
    ((view.searchPlan rules config dir).search kind name journal).1 = some path ↔
      ∃ key, view.Usable rules config dir kind name key path ∧
        view.NoneBefore rules config dir kind name key := by
  have hsearch := (view.searchPlan rules config dir).search_inOrder kind name (fun _ => rfl) journal
  have hsplit (pair : String × Path) :=
    ((view.searchPlan rules config dir).pairs_schedule kind name).split_iff pair
      fun other => (view.searchPlan rules config dir).usable? other = none
  rw [hsearch.found, List.findSome?_eq_some_iff]
  constructor
  · rintro ⟨front, pair, back, h, hpath, hfront⟩
    obtain ⟨key, hkey, hearlier⟩ := (hsplit pair).mp ⟨front, back, h, hfront⟩
    exact ⟨key, usable_iff.mpr ⟨pair, hkey, hpath⟩, noneBefore_iff.mpr hearlier⟩
  · rintro ⟨key, hkey, hearlier⟩
    obtain ⟨pair, hkey, hpath⟩ := usable_iff.mp hkey
    obtain ⟨front, back, h, hfront⟩ := (hsplit pair).mpr ⟨key, hkey, noneBefore_iff.mp hearlier⟩
    exact ⟨front, pair, back, h, hpath, hfront⟩

theorem search_eq_none :
    ((view.searchPlan rules config dir).search kind name journal).1 = none ↔
      ∀ key path, ¬ view.Usable rules config dir kind name key path := by
  have hsearch := (view.searchPlan rules config dir).search_inOrder kind name (fun _ => rfl) journal
  have hpairs := (view.searchPlan rules config dir).pairs_schedule kind name
  rw [hsearch.found, List.findSome?_eq_none_iff]
  simp only [hpairs.mem_iff, usable_iff, Option.eq_none_iff_forall_ne_some]
  constructor
  · rintro h key path ⟨pair, hkey, hpath⟩
    exact h pair ⟨key, hkey⟩ path hpath
  · rintro h pair ⟨key, hkey⟩ path hpath
    exact h key path ⟨pair, hkey, hpath⟩

/-- There is one probe for each pair that no pair with a file comes before, in the order of the pairs. -/
theorem search_probes :
    ∃ made, ((view.searchPlan rules config dir).search kind name journal).2.probes =
        journal.probes ++ made ∧
      Schedule Earlier
        (fun key probe => view.Probes rules config dir kind name key probe ∧
          view.NoneBefore rules config dir kind name key)
        made := by
  have hsearch := (view.searchPlan rules config dir).search_inOrder kind name (fun _ => rfl) journal
  have hpairs := (view.searchPlan rules config dir).pairs_schedule kind name
  refine ⟨_, hsearch.probes, ((hpairs.upTo _).map _).congr fun key probe => ?_⟩
  simp only [noneBefore_iff, Option.isSome_eq_false_iff, Option.isNone_iff_eq_none]
  constructor
  · rintro ⟨pair, ⟨hpair, hearlier⟩, rfl⟩
    exact ⟨⟨hpair, fun path => toOption_resolver⟩, hearlier⟩
  · rintro ⟨⟨hpair, hfound⟩, hearlier⟩
    refine ⟨_, ⟨hpair, hearlier⟩, ?_⟩
    obtain ⟨base, request, found⟩ := probe
    refine congrArg (Probe.mk base request) (Option.ext fun path => ?_)
    exact toOption_resolver.trans (hfound path).symm

variable (view rules config dir kind name journal)

/-- **A search in a file system finds the first match in order.** A probe is answered by the hit of its request
    in its directory. The search finds the file of the least pair that leads to one, that is, with the least
    number of a request and, for this request, of a directory. It finds nothing if no pair does. It makes one
    probe for each pair that none such comes before. -/
theorem search_first :
    (∀ made base request path,
      (view.searchPlan rules config dir).resolver made base request = .ok path ↔
        view.Hit rules base request path) ∧
    (∀ path, ((view.searchPlan rules config dir).search kind name journal).1 = some path ↔
      ∃ key, view.Usable rules config dir kind name key path ∧
        view.NoneBefore rules config dir kind name key) ∧
    (((view.searchPlan rules config dir).search kind name journal).1 = none ↔
      ∀ key path, ¬ view.Usable rules config dir kind name key path) ∧
    ∃ made, ((view.searchPlan rules config dir).search kind name journal).2.probes =
        journal.probes ++ made ∧
      Schedule Earlier
        (fun key probe => view.Probes rules config dir kind name key probe ∧
          view.NoneBefore rules config dir kind name key)
        made :=
  ⟨fun _ _ _ _ => resolveModule_eq_ok, fun _ => search_eq_some, search_eq_none, search_probes⟩

/-- A partial with an earlier extension is found in a later directory. -/
example :
    let view : FileView := fun path => .ok (path.text == "A/foo" || path.text == "B/foo.hbs")
    let config : Config := { extensions := [".hbs", ""], partialDirs := [⟨"B"⟩] }
    let result := (view.searchPlan { } config ⟨"A"⟩).search .partialTemplate "foo" []
    result.1 = some ⟨"B/foo.hbs"⟩ ∧
      result.2.probes.map (fun probe => (probe.base, probe.request)) =
        [(⟨"A"⟩, "./foo.hbs"), (⟨"B"⟩, "./foo.hbs")] := by
  decide

end FileView

end Stache
