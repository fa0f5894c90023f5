import Mathlib.Data.Set.Basic
import Stache.Proofs.Spec.KnownHelpers

/-!
# Known helpers and the generation of code

What the known helpers change when the code of a template tree is generated: the names that are asked
about, and whether the tree is rejected.

* `askedNames_known` -- **more known helpers ask about the same partials and the same helpers**, and about
  fewer members of the context; each member that is left out is the name that a mustache or a block without
  arguments calls. If only known helpers may be called, no other helper is asked about;
* `generation_rejected` -- **a tree is rejected exactly where it must call a helper that is unknown**: only
  if nothing but known helpers may be called, and only for a bare name with arguments or in parentheses.
-/

namespace Stache

open Dialogue (Asks)

/-- The generation of the code of a template tree, as a dialogue about its references. -/
def Program.generation (hints : Hints) (program : Program) : Dialogue String := do
  let body ← (program.spec hints).ask
  return body.specText

/-- A template tree is asked about along the outline of its spec tree. -/
theorem Program.asks_generation (hints : Hints) (program : Program) :
    Asks (program.generation hints) (linesOutline (program.spec hints).lines) :=
  (program.spec hints).asks_ask.map

/-! ## 1. The names that are asked about -/

section Names

variable {σ τ : Type} (policy : Reference → σ → Option String × σ) (state : σ)
  (policy' : Reference → τ → Option String × τ) (state' : τ)

/-- The names of a kind that a policy is asked about when the code of a template tree is generated. -/
def Program.askedNames (program : Program) (hints : Hints) (kind : LookupKind) : Set String :=
  {name | ∃ base, Reference.symbol kind base name ∈ (program.generation hints).asked policy state}

/-- They are names of the outline, whoever answers. -/
theorem Program.mem_askedNames {program : Program} {hints : Hints} {kind : LookupKind} {name : String} :
    name ∈ program.askedNames policy state hints kind ↔
      ∃ base, .symbol kind base name ∈ (linesOutline (program.spec hints).lines).references := by
  rw [askedNames, Set.mem_ofPred_eq, (program.asks_generation hints).asked_eq]

/-- `a` asks what `b` asks but for members that `later` knows as helpers and `hints` does not. For each of
    them there is a mustache or a block among the places that calls it without arguments. -/
structure Outline.LeftOut (hints later : Hints) (sites : List CallSite) (a b : Outline) : Prop where
  thinner : Thinner hints.known a b
  missing : ∀ base name, .symbol .context base name ∈ b.references →
    .symbol .context base name ∈ a.references ∨ (name ∈ later.known ∧ name ∉ hints.known ∧
      ∃ site ∈ sites, site.Bare name ∧ site.isSub = false ∧ site.call.hasArguments = false)

namespace Outline.LeftOut

variable {hints later : Hints} {s t : List CallSite} {a b c d : Outline}

theorem refl (h : a.fault = none) : LeftOut hints later s a a :=
  ⟨.refl h, fun _ _ hm => .inl hm⟩

theorem mono (h : LeftOut hints later s a b) (hst : ∀ site ∈ s, site ∈ t) :
    LeftOut hints later t a b := by
  refine ⟨h.thinner, fun base name hm => (h.missing base name hm).imp_right ?_⟩
  rintro ⟨hl, hk, site, hs, hsite⟩
  exact ⟨hl, hk, site, hst site hs, hsite⟩

theorem append (h : LeftOut hints later s a b) (h' : LeftOut hints later t c d) :
    LeftOut hints later (s ++ t) (a ++ c) (b ++ d) := by
  have left := h.mono (t := s ++ t) fun _ => List.mem_append_left t
  have right := h'.mono (t := s ++ t) fun _ => List.mem_append_right s
  refine ⟨h.thinner.append h'.thinner, fun base name hm => ?_⟩
  rw [Outline.append_of_none h.thinner.fault]
  rcases Outline.mem_references_append hm with hm | hm
  · exact (left.missing base name hm).imp_left (List.mem_append_left _)
  · exact (right.missing base name hm).imp_left (List.mem_append_right _)

end Outline.LeftOut

/-- A callee that becomes a helper by being known is called by a mustache or a block without arguments. -/
theorem Hints.Grown.leftOut {hints later : Hints} (h : hints.Grown later) :
    OutlineRelation later hints (Outline.LeftOut hints later) where
  nothing := .refl rfl
  append := .append
  perm hp hr := hr.mono fun _ => hp.mem_iff.mp
  chain _ _ := .refl rfl
  text _ _ := .refl rfl
  partialName _ := .refl rfl
  call scope isSub call t hc ha := by
    have thinner := h.outlineRelation.call scope isSub call (t := t) hc.thinner ha.thinner
    have here : ∀ site ∈ call.callee.sites scope ++ t,
        site ∈ ⟨scope, isSub, call⟩ :: (call.callee.sites scope ++ t) :=
      fun _ => List.mem_cons_of_mem _
    simp only [outline_invocation] at thinner ⊢
    rcases h.calleeKind_cases scope isSub call with ⟨e, hr⟩ | ⟨name, e, _, e', _⟩
    · rw [e] at thinner ⊢
      cases hk : call.calleeKind hints scope isSub with
      | helper name =>
        exact (Outline.LeftOut.append (s := []) (.refl rfl) ha).mono
          fun _ hm => here _ (List.mem_append_right _ hm)
      | ambiguous name => exact .refl rfl
      | value =>
        dsimp only
        split
        · exact (hc.append ha).mono here
        · exact hc.mono fun _ hm => here _ (List.mem_append_left t hm)
      | refused name => exact absurd hk (hr name)
    · -- the member that was asked about before has the name of the helper
      have before := call.calleeKind_spec hints scope isSub
      have now := call.calleeKind_spec later scope isSub
      rw [e] at before
      rw [e'] at now
      obtain ⟨hname, hk, _, hn, rfl⟩ := before
      have hl : name ∈ later.known := by
        refine now.2.resolve_right fun hargs => ?_
        rw [hn] at hargs
        rcases hargs.2 with hargs | hargs
        · cases hargs
        · cases hargs
      rw [e, e'] at thinner ⊢
      refine ⟨thinner, fun base other hm => ?_⟩
      rcases Outline.mem_references_append hm with hm | hm
      · cases List.mem_singleton.mp hm
        exact .inr ⟨hl, hk, _, List.mem_cons_self, CallSite.helperName?_eq_some.mp hname, rfl, hn⟩
      · cases List.mem_singleton.mp hm

/-- A helper that is known asks about the same partials and helpers as one that is not. -/
theorem Program.askedNames_empty (program : Program) (known : Std.ExtTreeSet String) {kind : LookupKind}
    (hk : kind = .partialTemplate ∨ kind = .helper) :
    program.askedNames policy state ⟨false, known⟩ kind =
      program.askedNames policy' state' ⟨false, ∅⟩ kind := by
  have grown : Hints.Grown ⟨false, ∅⟩ ⟨false, known⟩ :=
    ⟨rfl, rfl, fun name hn => absurd hn Std.ExtTreeSet.not_mem_empty⟩
  ext name
  rw [mem_askedNames, mem_askedNames]
  refine exists_congr fun base => (grown.outlineRelation.program program).mem_iff ?_
  rcases hk with rfl | rfl <;> rfl

/-- **What the known helpers change about the names that are asked about.** -/
theorem askedNames_known (program : Program) (known later : Std.ExtTreeSet String) :
    (∀ kind, kind = .partialTemplate ∨ kind = .helper →
      program.askedNames policy state ⟨false, known⟩ kind =
        program.askedNames policy' state' ⟨false, later⟩ kind) ∧
    ((∀ name ∈ known, name ∈ later) →
      program.askedNames policy' state' ⟨false, later⟩ .context ⊆
        program.askedNames policy state ⟨false, known⟩ .context ∧
      ∀ name ∈ program.askedNames policy state ⟨false, known⟩ .context,
        name ∉ program.askedNames policy' state' ⟨false, later⟩ .context →
          name ∈ later ∧ name ∉ known ∧ ∃ site ∈ program.sites,
            site.Bare name ∧ site.isSub = false ∧ site.call.hasArguments = false) ∧
    ∀ name ∈ program.askedNames policy state ⟨true, known⟩ .helper, name ∈ known := by
  refine ⟨fun kind hk => ?_, fun hkl => ?_, fun name hm => ?_⟩
  · rw [program.askedNames_empty policy state policy' state' known hk,
      program.askedNames_empty policy' state' policy' state' later hk]
  · have grown : Hints.Grown ⟨false, known⟩ ⟨false, later⟩ := ⟨rfl, rfl, hkl⟩
    have left := grown.leftOut.program program
    refine ⟨fun name hm => ?_, fun name hm hn => ?_⟩
    · rw [Program.mem_askedNames] at hm ⊢
      obtain ⟨base, hm⟩ := hm
      exact ⟨base, left.thinner.sublist.subset hm⟩
    · rw [Program.mem_askedNames] at hm hn
      obtain ⟨base, hm⟩ := hm
      exact (left.missing base name hm).resolve_left fun hl => hn ⟨base, hl⟩
  · obtain ⟨base, hm⟩ := (Program.mem_askedNames policy state).mp hm
    exact (@helpersIn_relation ⟨true, known⟩ rfl).program program base name hm

end Names

/-- A tree with one mustache that calls `m` without arguments. -/
def mustacheTree : Program :=
  ⟨[.mustache ⟨.lookup (.ofNames false 0 ["m"] "m"), [], [], .start⟩ true], []⟩

/-- Once `m` is known the mustache asks about no member of the context any more. -/
theorem askedNames_mustacheTree :
    (∀ name ∈ (∅ : Std.ExtTreeSet String), name ∈ ({"m"} : Std.ExtTreeSet String)) ∧
      "m" ∈ mustacheTree.askedNames (fun _ state => (none, state)) () ⟨false, ∅⟩ .context ∧
      "m" ∉ mustacheTree.askedNames (fun _ state => (none, state)) () ⟨false, {"m"}⟩ .context ∧
      ∃ site ∈ mustacheTree.sites, site.Bare "m" ∧ site.isSub = false ∧
        site.call.hasArguments = false := by
  have more : ∀ name ∈ (∅ : Std.ExtTreeSet String), name ∈ ({"m"} : Std.ExtTreeSet String) :=
    fun name hn => absurd hn Std.ExtTreeSet.not_mem_empty
  have before : "m" ∈ mustacheTree.askedNames (fun _ state => (none, state)) () ⟨false, ∅⟩ .context := by
    rw [Program.mem_askedNames]
    exact ⟨.context, by decide⟩
  have later : "m" ∉
      mustacheTree.askedNames (fun _ state => (none, state)) () ⟨false, {"m"}⟩ .context := by
    rw [Program.mem_askedNames]
    rintro ⟨base, hm⟩
    cases List.mem_singleton.mp hm
  exact ⟨more, before, later, ((askedNames_known _ () _ () mustacheTree ∅ {"m"}).2.1 more).2 "m" before
    later |>.2.2⟩

/-! ## 2. What is rejected -/

/-- A helper must be called that is not known: a bare name has arguments or stands in parentheses. -/
def CallSite.Unknown (known : Std.ExtTreeSet String) (site : CallSite) : Prop :=
  ∃ name, site.Bare name ∧ name ∉ known ∧ (site.call.hasArguments = true ∨ site.isSub = true)

/-- Such a call is refused if only known helpers may be called, and no other call is. -/
theorem CallSite.unknown_iff {known : Std.ExtTreeSet String} {site : CallSite} :
    site.Unknown known ↔
      ∃ name, site.call.calleeKind ⟨true, known⟩ site.scope site.isSub = .refused name := by
  have hkind := site.call.calleeKind_spec ⟨true, known⟩ site.scope site.isSub
  constructor
  · rintro ⟨name, hname, hk, hargs⟩
    have hname : site.call.callee.helperName? site.scope = some name :=
      CallSite.helperName?_eq_some.mpr hname
    refine ⟨name, ?_⟩
    rw [Call.calleeKind, hname]
    exact (if_neg hk).trans ((if_pos (Bool.or_eq_true _ _ ▸ hargs)).trans (if_pos rfl))
  · rintro ⟨name, e⟩
    rw [e] at hkind
    obtain ⟨hname, hk, _, hargs⟩ := hkind
    exact ⟨name, CallSite.helperName?_eq_some.mp hname, hk, hargs⟩

theorem Outline.fault_append {a b : Outline} :
    (a ++ b).fault ≠ none ↔ a.fault ≠ none ∨ b.fault ≠ none := by
  rcases a with ⟨references, _ | error⟩
  · rw [append_of_none rfl]
    simp only [ne_eq, not_true_eq_false, false_or]
  · rw [append_of_fault rfl]
    simp only [ne_eq, reduceCtorEq, not_false_eq_true, true_or]

/-- What calls nothing and has no fault. -/
theorem Outline.calls_nothing {a : Outline} {P : CallSite → Prop} (h : a.fault = none) :
    a.fault ≠ none ↔ ∃ site ∈ ([] : List CallSite), P site :=
  iff_of_false (absurd h) fun ⟨_, hm, _⟩ => nomatch hm

/-- The outline of a tree ends with a fault if it has a place whose call is refused. -/
theorem rejects_relation (known : Std.ExtTreeSet String) :
    OutlineRelation ⟨true, known⟩ ⟨true, known⟩ fun sites a _ =>
      a.fault ≠ none ↔ ∃ site ∈ sites, site.Unknown known where
  nothing := Outline.calls_nothing rfl
  append ha hb := by
    rw [Outline.fault_append, ha, hb, ← exists_or]
    refine exists_congr fun site => ?_
    rw [List.mem_append, or_and_right]
  perm hp h := h.trans (exists_congr fun site => and_congr_left' hp.mem_iff)
  chain _ _ := Outline.calls_nothing rfl
  text _ _ := Outline.calls_nothing rfl
  partialName _ := Outline.calls_nothing rfl
  call scope isSub call t hc ha := by
    have sites : (∃ site ∈ ⟨scope, isSub, call⟩ :: (call.callee.sites scope ++ t), site.Unknown known) ↔
        (∃ name, call.calleeKind ⟨true, known⟩ scope isSub = .refused name) ∨
          (call.callee.value ⟨true, known⟩ scope).outline.fault ≠ none ∨
            (call.argumentsOutline ⟨true, known⟩ scope).fault ≠ none := by
      rw [hc, ha, ← @CallSite.unknown_iff known ⟨scope, isSub, call⟩]
      simp only [List.mem_cons, List.mem_append, or_and_right, exists_or, exists_eq_left]
    have lookup : ∀ name, call.callee.helperName? scope = some name →
        ¬ (call.callee.value ⟨true, known⟩ scope).outline.fault ≠ none := by
      intro name hname hf
      rw [hc, Expr.sites_of_helperName? hname] at hf
      obtain ⟨_, hm, _⟩ := hf
      cases hm
    have hkind := call.calleeKind_spec ⟨true, known⟩ scope isSub
    rw [sites, outline_invocation]
    cases e : call.calleeKind ⟨true, known⟩ scope isSub with
    | helper name =>
      rw [e] at hkind
      rw [Outline.fault_append]
      simp only [reduceCtorEq, exists_false, false_or, lookup name hkind.1]
      exact or_iff_right (absurd rfl)
    | ambiguous name =>
      rw [e] at hkind
      exact absurd hkind.2.2.1 nofun
    | value =>
      simp only [reduceCtorEq, exists_false, false_or]
      split
      · exact Outline.fault_append
      · rename_i hargs
        rw [call.argumentsOutline_eq_nothing (Bool.not_eq_true _ ▸ hargs)]
        exact (or_iff_left (absurd rfl)).symm
    | refused name => exact iff_of_true nofun (.inl ⟨name, rfl⟩)

section Rejected

variable {σ : Type} (policy : Reference → σ → Option String × σ) (state : σ)

/-- The generation is rejected exactly if the outline ends with a fault. -/
theorem Program.generation_ends (hints : Hints) (program : Program) :
    ((∃ code, ((program.generation hints).run policy state).1 = .ok code) ↔
      (linesOutline (program.spec hints).lines).fault = none) ∧
    ((∃ error, ((program.generation hints).run policy state).1 = .error error) ↔
      (linesOutline (program.spec hints).lines).fault ≠ none) := by
  have hend := (program.asks_generation hints).run_eq policy state
  cases hf : (linesOutline (program.spec hints).lines).fault with
  | none =>
    rw [hf] at hend
    obtain ⟨code, hc⟩ := hend
    exact ⟨iff_of_true ⟨code, hc⟩ rfl,
      iff_of_false (fun ⟨_, he⟩ => nomatch hc.symm.trans he) (absurd rfl)⟩
  | some error =>
    rw [hf] at hend
    exact ⟨iff_of_false (fun ⟨_, hc⟩ => nomatch hend.symm.trans hc) nofun,
      iff_of_true ⟨error, hend⟩ nofun⟩

/-- More known helpers leave fewer places with an unknown one. -/
theorem CallSite.Unknown.mono {known later : Std.ExtTreeSet String} {site : CallSite}
    (h : ∀ name ∈ known, name ∈ later) : site.Unknown later → site.Unknown known :=
  fun ⟨name, hname, hk, hargs⟩ => ⟨name, hname, fun hn => hk (h name hn), hargs⟩

/-- **What is rejected**: nothing, if unknown helpers may be called, else the trees that must call one.
    What is accepted stays so with more known helpers. -/
theorem generation_rejected (program : Program) (known : Std.ExtTreeSet String) :
    (∃ code, ((program.generation ⟨false, known⟩).run policy state).1 = .ok code) ∧
    ((∃ error, ((program.generation ⟨true, known⟩).run policy state).1 = .error error) ↔
      ∃ site ∈ program.sites, site.Unknown known) ∧
    ∀ later : Std.ExtTreeSet String, (∀ name ∈ known, name ∈ later) →
      (∃ code, ((program.generation ⟨true, known⟩).run policy state).1 = .ok code) →
        ∃ code, ((program.generation ⟨true, later⟩).run policy state).1 = .ok code := by
  have rejects (known : Std.ExtTreeSet String) := (rejects_relation known).program program
  refine ⟨?_, ?_, fun later hkl hok => ?_⟩
  · have grown : Hints.Grown ⟨false, known⟩ ⟨false, known⟩ := ⟨rfl, rfl, fun _ => id⟩
    exact (program.generation_ends policy state _).1.mpr (grown.outlineRelation.program program).fault
  · exact (program.generation_ends policy state _).2.trans (rejects known)
  · rw [(program.generation_ends policy state _).1] at hok ⊢
    by_contra hf
    obtain ⟨site, hs, hu⟩ := (rejects later).mp hf
    exact (rejects known).mpr ⟨site, hs, hu.mono hkl⟩ hok

/-- A tree with one mustache that calls `m` with the argument `n`. -/
def appliedTree : Program :=
  ⟨[.mustache callWith true], []⟩

/-- It is rejected until `m` is known. -/
theorem generation_rejected_applied :
    (∃ error, ((appliedTree.generation ⟨true, ∅⟩).run (fun _ state => (none, state)) ()).1 =
      .error error) ∧
    (∀ name ∈ ({"m"} : Std.ExtTreeSet String), name ∈ ({"n", "m"} : Std.ExtTreeSet String)) ∧
    (∃ code, ((appliedTree.generation ⟨true, {"m"}⟩).run (fun _ state => (none, state)) ()).1 =
      .ok code) ∧
    ∃ code, ((appliedTree.generation ⟨true, {"n", "m"}⟩).run (fun _ state => (none, state)) ()).1 =
      .ok code := by
  have unknown : ∃ site ∈ appliedTree.sites, site.Unknown ∅ :=
    ⟨⟨[], false, callWith⟩, List.mem_cons_self, "m", ⟨⟨_, rfl⟩, nofun⟩,
      Std.ExtTreeSet.not_mem_empty, .inl rfl⟩
  have more : ∀ name ∈ ({"m"} : Std.ExtTreeSet String), name ∈ ({"n", "m"} : Std.ExtTreeSet String) :=
    fun name hn => Std.ExtTreeSet.mem_insert.mpr (.inr hn)
  have accepted : ∃ code, ((appliedTree.generation ⟨true, {"m"}⟩).run
      (fun _ state => (none, state)) ()).1 = .ok code :=
    (Program.generation_ends _ _ _ _).1.mpr rfl
  exact ⟨(generation_rejected _ () appliedTree ∅).2.1.mpr unknown, more, accepted,
    (generation_rejected _ () appliedTree {"m"}).2.2 _ more accepted⟩

end Rejected

end Stache
