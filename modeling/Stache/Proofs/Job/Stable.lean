import Stache.Proofs.Job.Again
import Stache.Proofs.Job.Loading

/-!
# Helpers that stay where they are

A helper that was found keeps its place for the rest of the build as long as every template that reads its
name as a member of the context calls it, too: then the place is taken over before anybody looks for the
name. A template that only reads the name looks for it, and the place that is found there counts from then
on.

* `Progress.Holds` -- the invariant of a run: the helper is found, and nobody has to look for it;
* `round_stays`, `settle_stays` -- one round, and a whole job;
* `history_stays` -- any number of loads;
* `found_helper_moves` -- a template that only reads the name.
-/

namespace Stache

namespace Progress

/-! ## 1. One job -/

/-- The helper is found, and nobody has to look for it: if it is recorded, then at this place, and as a
    member of the context it is pending only if the helper is recorded. -/
structure Holds (name : String) (path : Path) (p : Progress) : Prop where
  found : p.registry.path? name = some path
  helper : ∀ state, p.table.get? .helper name = some state → state = .resolved path
  member : p.table.get? .ambiguous name = some .pending →
    p.table.get? .helper name = some (.resolved path)

/-- Between two states nobody looked for the helper, and nobody scanned. -/
structure Unsearched (name : String) (p later : Progress) : Prop where
  searches : ∃ more, later.journal.searches = p.journal.searches ++ more ∧
    ∀ search ∈ more, search.2 = name → search.1 = .partialTemplate
  scanned : later.registry.scanned = p.registry.scanned

variable {name : String} {path : Path} {a b c p later : Progress}

theorem Unsearched.trans (h : Unsearched name a b) (h' : Unsearched name b c) : Unsearched name a c := by
  obtain ⟨⟨first, hf, hfirst⟩, hs⟩ := h
  obtain ⟨⟨second, he, hsecond⟩, hs'⟩ := h'
  refine ⟨⟨first ++ second, ?_, List.forall_mem_append.mpr ⟨hfirst, hsecond⟩⟩, hs'.trans hs⟩
  rw [he, hf, List.append_assoc]

theorem Unsearched.ofAgrees (hj : later.journal.Agrees p.journal) (hr : later.registry = p.registry) :
    Unsearched name p later :=
  ⟨⟨[], by rw [hj.searches, List.append_nil], nofun⟩, congrArg Registry.scanned hr⟩

/-- Messages are no matter. -/
theorem Holds.ofTold (h : Holds name path p) (ht : p.Told later) : Holds name path later where
  found := ht.registry ▸ h.found
  helper := ht.table ▸ h.helper
  member := ht.table ▸ h.member

section Stage

variable {plan : SearchPlan} {kind : SymbolKind} {names : List String} {found : String → Option Path}
  {anything : Bool}

/-- A stage that does not look for the helper leaves its record as it is. -/
theorem Searched.helper_eq (h : p.Searched plan kind names found anything later)
    (hp : Holds name path p) (hn : kind ≠ .partialTemplate → name ∉ names) :
    later.table.get? .helper name = p.table.get? .helper name := by
  by_cases hk : SymbolKind.helper = kind
  · subst hk
    rw [h.own, if_neg]
    intro hm
    cases hp.helper _ (SymbolTable.mem_pending.mp hm)
  · rw [h.others .helper hk]
    split
    · rename_i hm
      obtain ⟨⟨rfl, _⟩, hm, _⟩ := hm
      -- the name is read as well, and takes over where the helper is
      have hheld := hp.member (SymbolTable.mem_pending.mp hm)
      rw [h.taken name hm (hn nofun), SymbolTable.path?_eq_some_iff.mpr hheld, hheld]
      rfl
    · rfl

/-- **A stage that does not look for the helper** leaves it where it is. -/
theorem Searched.holds (h : p.Searched plan kind names found anything later)
    (hp : Holds name path p) (hn : kind ≠ .partialTemplate → name ∉ names) : Holds name path later := by
  have hsame := h.helper_eq hp hn
  constructor
  case found =>
    rw [h.paths, if_neg fun hk => hn hk.1 hk.2]
    exact hp.found
  case helper =>
    rw [hsame]
    exact hp.helper
  case member =>
    intro hm
    have hm := SymbolTable.mem_pending.mp (h.pending_of_pending (SymbolTable.mem_pending.mpr hm))
    rw [hsame]
    exact hp.member hm

theorem Searched.unsearched (h : p.Searched plan kind names found anything later)
    (hn : kind ≠ .partialTemplate → name ∉ names) : Unsearched name p later := by
  refine ⟨⟨names.map (kind, ·), h.searches, fun search hs e => ?_⟩, h.scanned⟩
  obtain ⟨n, hm, rfl⟩ := List.mem_map.mp hs
  by_cases hk : kind = .partialTemplate
  · exact hk
  · exact absurd (e ▸ hm) (hn hk)

end Stage

end Progress

namespace Job

open Progress

variable {job : Job} {source name : String} {path : Path} {p later : Progress}

/-- Who reads the name of a helper as a member of the context calls it, too, whenever the name is known. -/
def CallsWhatItReads (job : Job) (source name : String) : Prop :=
  ∀ p : Progress, name ∈ p.registry.known → (.ambiguous, name) ∈ job.entries source p →
    (.helper, name) ∈ job.entries source p

/-- The pass takes the place of the helper over. -/
theorem holds_compiled (hc : job.CallsWhatItReads source name) (hp : Holds name path p) :
    Holds name path (job.compiled source p) := by
  have hreg := (job.compiled_spec source p).2.1
  have hcalled (hm : (.helper, name) ∈ job.entries source p) :
      (job.compiled source p).table.get? .helper name = some (.resolved path) := by
    rw [get?_compiled, if_pos hm]
    simp only [Registry.seen, hp.found]
    cases hstate : p.table.get? .helper name with
    | none => rfl
    | some state => rw [hp.helper state hstate]; rfl
  constructor
  case found =>
    rw [hreg]
    exact hp.found
  case helper =>
    intro state hstate
    by_cases hm : (.helper, name) ∈ job.entries source p
    · rw [hcalled hm] at hstate
      exact (Option.some.inj hstate).symm
    · rw [get?_compiled, if_neg hm] at hstate
      exact hp.helper state hstate
  case member =>
    intro hpending
    by_cases hm : (.helper, name) ∈ job.entries source p
    · exact hcalled hm
    · have hnot : (.ambiguous, name) ∉ job.entries source p := fun hread =>
        hm (hc p (Registry.known_of_path? hp.found) hread)
      rw [get?_compiled, if_neg hnot] at hpending
      rw [get?_compiled, if_neg hm]
      exact hp.member hpending

/-- **One round** leaves the helper where it is, whatever the round comes to. -/
theorem round_stays (hc : job.CallsWhatItReads source name) (hp : Holds name path p) :
    Holds name path (job.round source p).2 ∧ Unsearched name p (job.round source p).2 := by
  obtain ⟨_, hreg, _, hj⟩ := job.compiled_spec source p
  have h₀ := holds_compiled hc hp
  have hu₀ : Unsearched name p (job.compiled source p) := .ofAgrees hj hreg
  -- no helper is looked for that is found already
  obtain ⟨_, hh⟩ := job.helpersSearched_spec source p
  have hn₁ : name ∉ (job.compiled source p).table.pending .helper := by
    intro hm
    cases h₀.helper _ (SymbolTable.mem_pending.mp hm)
  have h₁ := hh.holds h₀ fun _ => hn₁
  have hu₁ := hu₀.trans (hh.unsearched fun _ => hn₁)
  -- and no name that is read and called
  obtain ⟨_, ha⟩ := job.ambiguousSearched_spec source p
  have hn₂ : name ∉ unsearched (job.helpersSearched source p).2.table := by
    intro hm
    obtain ⟨hpending, hattempted⟩ := mem_unsearched.mp hm
    rw [SymbolTable.isAttempted_eq, h₁.member hpending] at hattempted
    cases hattempted
  have h₂ := ha.holds h₁ fun _ => hn₂
  have hu₂ := hu₁.trans (ha.unsearched fun _ => hn₂)
  have ends := job.round_ends source p
  generalize job.round source p = result at ends ⊢
  cases ends with
  | rejected => exact ⟨h₀, hu₀⟩
  | missing _ searched =>
    refine ⟨⟨searched.registry ▸ h₂.found, searched.table ▸ h₂.helper, searched.table ▸ h₂.member⟩,
      hu₂.trans ⟨⟨_, searched.searches, fun search hs _ => ?_⟩, congrArg Registry.scanned searched.registry⟩⟩
    obtain ⟨_, _, rfl⟩ := List.mem_map.mp hs
    rfl
  | coded _ searched =>
    exact ⟨searched.holds h₂ fun h => absurd rfl h,
      hu₂.trans (searched.unsearched fun h => absurd rfl h)⟩

/-- **A job leaves a helper that was found where it is** and does not look for it, whatever the job comes
    to; if the template settles and the helper is loaded, then from there. -/
theorem settle_stays (hc : job.CallsWhatItReads source name) {registry : Registry}
    (hf : registry.path? name = some path) (journal : Journal) {result : Except LoadError Settled}
    (h : job.settle source registry journal = (result, later)) :
    later.registry.path? name = some path ∧ Unsearched name { registry, journal } later ∧
      ∀ settled, result = .ok settled →
        ∀ place, settled.table.path? .helper name = some place → place = path := by
  let start : Progress := { registry, journal }
  have hstart : Holds name path start ∧ Unsearched name start start := by
    refine ⟨⟨hf, fun state hstate => ?_, fun hpending => ?_⟩, .ofAgrees (.refl _) rfl⟩
    · rw [SymbolTable.get?_empty] at hstate
      cases hstate
    · rw [SymbolTable.get?_empty] at hpending
      cases hpending
  have hround (q : Progress) (hq : Holds name path q ∧ Unsearched name start q) :
      Holds name path (job.round source q).2 ∧ Unsearched name start (job.round source q).2 := by
    obtain ⟨hholds, hu⟩ := round_stays hc hq.1
    exact ⟨hholds, hq.2.trans hu⟩
  have htold (q last : Progress) (hq : Holds name path q ∧ Unsearched name start q) (ht : q.Told last) :
      Holds name path last ∧ Unsearched name start last :=
    ⟨hq.1.ofTold ht, hq.2.trans (.ofAgrees ht.journal ht.registry)⟩
  obtain ⟨⟨hholds, hu⟩, htable⟩ := settle_keeps hround htold hstart h
  refine ⟨hholds.found, hu, fun settled hsettled place hplace => ?_⟩
  rw [htable settled hsettled] at hplace
  have hstate := hholds.helper _ (SymbolTable.path?_eq_some_iff.mp hplace)
  cases hstate
  rfl

end Job

/-! ## 2. Any number of loads -/

/-- A load that is asked for. -/
structure LoadRequest where
  config : Config
  source : String
  template : Path

namespace LoadRequest

variable (request : LoadRequest)

/-- What the load comes to in a build, and the build afterwards. -/
def run (build : Build) : Except LoadError Loaded × Build :=
  (load request.config request.source request.template).exec build

/-- The template calls the helper of a name that it reads as a member of the context, whatever helpers are
    known besides. -/
def CallsWhatItReads (name : String) : Prop :=
  ∀ known : Std.ExtTreeSet String, name ∈ known →
    let asked := (Job.passOutline ⟨request.config.knownHelpersOnly, known⟩ request.source).references
    (∃ base, .symbol .context base name ∈ asked) → ∃ base, .symbol .helper base name ∈ asked

/-- The load does not scan for helpers. -/
def ScansNothing (build : Build) : Prop :=
  request.config.helperDirs = [] ∨ build.registry.scanned = true

variable {request}

theorem CallsWhatItReads.loadJob {name : String} (h : request.CallsWhatItReads name) (tree : FileTree) :
    (loadJob request.config request.template tree).CallsWhatItReads request.source name := by
  intro p hknown hread
  change (.ambiguous, name) ∈ (Job.ofTemplate _ _ _).entries request.source p at hread
  show (.helper, name) ∈ (Job.ofTemplate _ _ _).entries request.source p
  rw [Job.entries_ofTemplate] at hread ⊢
  obtain ⟨reference, hr, he⟩ := List.mem_filterMap.mp hread
  obtain ⟨base, rfl⟩ := Reference.eq_of_symbol?_ambiguous he
  obtain ⟨base, hcall⟩ := h p.registry.known hknown ⟨base, hr⟩
  exact List.mem_filterMap.mpr ⟨_, hcall, rfl⟩

end LoadRequest

theorem foldl_insert_found (names : List String) (registry : Registry) :
    (names.foldl Registry.insert registry).found = registry.found ∧
      (names.foldl Registry.insert registry).scanned = registry.scanned := by
  induction names generalizing registry with
  | nil => exact ⟨rfl, rfl⟩
  | cons name names ih => exact ih (registry.insert name)

/-- To make helpers known is not to find them. -/
theorem seededRegistry_found {request : LoadRequest} {build : Build} (h : request.ScansNothing build) :
    (seededRegistry request.config build.tree build.registry).found = build.registry.found ∧
      (seededRegistry request.config build.tree build.registry).scanned = build.registry.scanned := by
  have hinsert := foldl_insert_found (builtinHelpers ++ request.config.knownHelpers) build.registry
  unfold seededRegistry scanHelpers
  rw [if_pos]
  · exact hinsert
  · rw [hinsert.2, Bool.or_eq_true, List.isEmpty_iff]
    exact h

/-- Between two builds a helper stays where it is, and nobody looked for it. -/
structure Build.Stays (name : String) (path : Path) (build later : Build) : Prop where
  found : later.registry.path? name = some path
  searches : ∃ more, later.journal.searches = build.journal.searches ++ more ∧
    ∀ search ∈ more, search.2 = name → search.1 = .partialTemplate
  scanned : later.registry.scanned = build.registry.scanned

namespace Build.Stays

variable {name : String} {path : Path} {a b c build later : Build}

theorem trans (h : Stays name path a b) (h' : Stays name path b c) : Stays name path a c := by
  obtain ⟨first, hf, hfirst⟩ := h.searches
  obtain ⟨second, he, hsecond⟩ := h'.searches
  refine ⟨h'.found, ⟨first ++ second, ?_, List.forall_mem_append.mpr ⟨hfirst, hsecond⟩⟩,
    h'.scanned.trans h.scanned⟩
  rw [he, hf, List.append_assoc]

theorem ofAgrees (hf : build.registry.path? name = some path)
    (hr : later.registry.found = build.registry.found)
    (hs : later.registry.scanned = build.registry.scanned)
    (hj : later.journal.Agrees build.journal) : Stays name path build later := by
  refine ⟨?_, ⟨[], by rw [hj.searches, List.append_nil], nofun⟩, hs⟩
  rw [Registry.path?, hr]
  exact hf

theorem ofTold (hf : build.registry.path? name = some path) (h : build.Told later) :
    Stays name path build later :=
  .ofAgrees hf (by rw [h.registry]) (by rw [h.registry]) h.journal

end Build.Stays

section Loads

variable {request : LoadRequest} {name : String} {path : Path} {build later : Build}

/-- The job of a load leaves the helper where it is. -/
theorem settled_stays (hc : request.CallsWhatItReads name) (hf : build.registry.path? name = some path)
    {tree : FileTree} {result : Except LoadError Settled} {p : Progress}
    (h : (loadJob request.config request.template tree).settle request.source build.registry
      build.journal = (result, p))
    {files : FileTree} (hl : later.Left p files) : build.Stays name path later := by
  obtain ⟨hfound, ⟨⟨more, hmore, hnone⟩, hscanned⟩, _⟩ := Job.settle_stays (hc.loadJob tree) hf _ h
  refine ⟨by rw [hl.registry]; exact hfound, ⟨more, ?_, hnone⟩, by rw [hl.registry, hscanned]⟩
  rw [hl.journal.searches, hmore]

/-- **A load leaves a helper that was found where it is**, and does not look for it. -/
theorem load_stays (hc : request.CallsWhatItReads name) (hs : request.ScansNothing build)
    (hf : build.registry.path? name = some path) : build.Stays name path (request.run build).2 := by
  have ends := load_ends request.config request.template build request.source
  unfold LoadRequest.run
  generalize (load request.config request.source request.template).exec build = result at ends ⊢
  cases ends with
  | served _ _ told => exact .ofTold hf told
  | refused told => exact .ofTold hf told
  | @compiled seeded _ seeds ends =>
    obtain ⟨hfound, hscanned⟩ := seededRegistry_found hs
    have hseeded : build.Stays name path seeded :=
      .ofAgrees hf (by rw [seeds.registry, hfound]) (by rw [seeds.registry, hscanned]) seeds.journal
    cases ends with
    | failed settle left => exact hseeded.trans (settled_stays hc hseeded.found settle left)
    | emitted settle _ left => exact hseeded.trans (settled_stays hc hseeded.found settle left)
    | unstored settle _ left => exact hseeded.trans (settled_stays hc hseeded.found settle left)

/-- The builds that are reached by loads that scan for nothing and whose templates call the helper of the
    name if they read it. The files may change between the loads. -/
inductive History (name : String) (build : Build) : Build → Prop where
  | start : History name build build
  | load {later : Build} (before : History name build later) (request : LoadRequest)
    (calls : request.CallsWhatItReads name) (scans : request.ScansNothing later) :
    History name build (request.run later).2
  | change {later : Build} (before : History name build later) (tree : FileTree) :
    History name build { later with tree }

theorem history_stays (hf : build.registry.path? name = some path) (h : History name build later) :
    build.Stays name path later := by
  induction h with
  | start => exact .ofTold hf (.refl build)
  | load _ request calls scans ih => exact ih.trans (load_stays calls scans ih.found)
  | change _ tree ih => exact ⟨ih.found, ih.searches, ih.scanned⟩

/-- **A helper that was found stays where it is for the rest of the build**, as long as all templates that
    read its name as a member of the context call it, too, and nobody scans for helpers: the place stays,
    nobody looks for the name of the helper, and whatever template loads the helper loads it from there. -/
theorem found_helper_stays (hf : build.registry.path? name = some path)
    (h : History name build later) :
    later.registry.path? name = some path ∧
    (∃ more, later.journal.searches = build.journal.searches ++ more ∧
      ∀ search ∈ more, search.2 = name → search.1 = .partialTemplate) ∧
    ∀ request : LoadRequest, request.CallsWhatItReads name → request.ScansNothing later →
      ∀ journal settled p, (loadJob request.config request.template later.tree).settle request.source
          (seededRegistry request.config later.tree later.registry) journal = (.ok settled, p) →
        ∀ inline base code, settled.table.codeOf inline (.symbol .helper base name) = some code →
          code = loadHelper path := by
  have hstays := history_stays hf h
  refine ⟨hstays.found, hstays.searches, fun request hc hs journal settled p hsettle inline base code
    hcode => ?_⟩
  have hseeded : (seededRegistry request.config later.tree later.registry).path? name = some path := by
    rw [Registry.path?, (seededRegistry_found hs).1]
    exact hstays.found
  obtain ⟨_, _, hplace⟩ := Job.settle_stays (hc.loadJob later.tree) hseeded journal hsettle
  obtain ⟨place, hp, rfl⟩ := Option.map_eq_some_iff.mp hcode
  rw [hplace settled rfl place hp]

/-- The template that calls a helper with a member of the context leaves the helper where it is. -/
theorem found_helper_stays_called : ∃ (build : Build) (request : LoadRequest) (later : Build),
    build.registry.path? "m" = some ⟨"a/m.js"⟩ ∧ History "m" build later ∧
      later = (request.run build).2 ∧ request.source = "\x7b\x7bm n\x7d\x7d" ∧
      later.registry.path? "m" = some ⟨"a/m.js"⟩ := by
  let build : Build := { tree := {}, registry := .record {} "m" ⟨"a/m.js"⟩ }
  let request : LoadRequest := ⟨{}, "\x7b\x7bm n\x7d\x7d", ⟨"b/u.hbs"⟩⟩
  have hfound : build.registry.path? "m" = some ⟨"a/m.js"⟩ := by
    rw [Registry.path?_record, if_pos rfl]
  have hcalls : request.CallsWhatItReads "m" := by
    intro known _ asked _
    refine ⟨.helpers, ?_⟩
    show _ ∈ (Job.passOutline _ _).references
    rw [Job.passOutline, if_neg (by decide), outline_callsWith rfl]
    exact List.mem_cons_self
  have h : History "m" build (request.run build).2 := .load .start request hcalls (.inl rfl)
  exact ⟨build, request, _, hfound, h, rfl, rfl, (found_helper_stays hfound h).1⟩

end Loads

/-! ## 3. A helper that moves -/

namespace Job

/-- **The helper of a name that a template only reads moves**: the template looks for the name although the
    helper is found, and the place that it finds counts from then on. -/
theorem found_helper_moves :
    let registry := Registry.record {} "n" ⟨"a/n.js"⟩
    registry.path? "n" = some ⟨"a/n.js"⟩ ∧
    ∃ settled p, (ofTemplate everywhere "t" fun _ => []).settle "\x7b\x7bm n\x7d\x7d" registry [] =
        (.ok settled, p) ∧
      p.registry.path? "n" = some ⟨"././n"⟩ := by
  intro registry
  refine ⟨(Registry.path?_record ..).trans (if_pos rfl), ?_⟩
  obtain ⟨settled, p, h⟩ : ∃ settled p, (ofTemplate everywhere "t" fun _ => []).settle
      "\x7b\x7bm n\x7d\x7d" registry [] = (.ok settled, p) :=
    settles_callsWith (fun _ base request => ⟨base.join ⟨request⟩, rfl⟩) registry
  refine ⟨settled, p, h, ?_⟩
  obtain ⟨_, place, _, ha⟩ := accounts_of_settle h
  have hknown : "n" ∈ p.registry.known := by
    rw [ha.known]
    exact .inl (Registry.known_of_path? ((Registry.path?_record ..).trans (if_pos rfl)))
  have hasked : (ofTemplate everywhere "t" fun _ => []).entries "\x7b\x7bm n\x7d\x7d" p =
      [(.helper, "m"), (.ambiguous, "n")] := by
    rw [entries_ofTemplate, passOutline, if_neg (by decide), outline_callsWith rfl]
    simp [Reference.symbol?, helperReference, hknown]
  rw [hasked] at ha
  have hsearch : (everywhere.search .ambiguous "n" []).1 = some ⟨"././n"⟩ := rfl
  have hplace := (ha.member "n" (by decide) (by decide)).unique (fun _ => rfl) ⟨[], hsearch⟩
  rw [ha.paths, if_pos (by decide), hplace]
  rfl

end Job

end Stache
