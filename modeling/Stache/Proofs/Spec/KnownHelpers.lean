import Stache.Proofs.Spec.Sites

/-!
# Known helpers

What the known helpers have to do with the outline of a template.

* `thinner_compilationOutline` -- as long as unknown helpers may be called, more known helpers reject
  nothing and leave the same questions but for some members: a call without arguments that was ambiguous
  and is now the call of a helper is no longer asked about as a member of the context;
* `helpersKnown_compilationOutline` -- if only known helpers may be called, no other helper is asked
  about.
-/

namespace Stache

/-! ## 1. More known helpers -/

/-- The reference is a member, of the context or of what was looked up before, whose name is not that of a
    known helper. -/
def Reference.isPlainMember (known : Std.ExtTreeSet String) : Reference → Bool
  | .symbol .context _ name => !known.contains name
  | _ => false

/-- `a` asks what `b` asks but for some members without the name of a known helper, and both end well. -/
structure Outline.Thinner (known : Std.ExtTreeSet String) (a b : Outline) : Prop where
  fault : a.fault = none
  fault' : b.fault = none
  sublist : a.references.Sublist b.references
  others : a.references.filter (!·.isPlainMember known) = b.references.filter (!·.isPlainMember known)

namespace Outline.Thinner

variable {known : Std.ExtTreeSet String}

theorem refl {a : Outline} (h : a.fault = none) : Thinner known a a :=
  ⟨h, h, .refl _, rfl⟩

theorem append {a b c d : Outline} (h : Thinner known a b) (h' : Thinner known c d) :
    Thinner known (a ++ c) (b ++ d) := by
  rw [append_of_none h.fault, append_of_none h.fault']
  refine ⟨h'.fault, h'.fault', h.sublist.append h'.sublist, ?_⟩
  simp only [List.filter_append, h.others, h'.others]

/-- A member may be left out. -/
theorem dropMember {a b : Outline} {member : Reference} (hm : member.isPlainMember known = true)
    (h : Thinner known a b) : Thinner known a (.one member ++ b) := by
  rw [append_of_none rfl]
  refine ⟨h.fault, h.fault', h.sublist.cons member, ?_⟩
  rw [h.others]
  exact (List.filter_cons_of_neg (by simp [hm])).symm

/-- A reference that is no such member is asked about by both or by none. -/
theorem mem_iff {a b : Outline} (h : Thinner known a b) {reference : Reference}
    (hm : reference.isPlainMember known = false) :
    reference ∈ a.references ↔ reference ∈ b.references := by
  have := congrArg (reference ∈ ·) h.others
  simpa [List.mem_filter, hm] using this

end Outline.Thinner

/-- More helpers are known than before, and unknown ones may be called. -/
structure Hints.Grown (hints later : Hints) : Prop where
  only : hints.knownHelpersOnly = false
  only' : later.knownHelpersOnly = false
  known : ∀ name, name ∈ hints.known → name ∈ later.known

namespace Hints.Grown

variable {hints later : Hints}

/-- A callee is treated as before, unless it was ambiguous and became a helper. Nothing is refused. -/
theorem calleeKind_cases (h : hints.Grown later) (scope : Scope) (isSub : Bool) (call : Call) :
    (call.calleeKind later scope isSub = call.calleeKind hints scope isSub ∧
      ∀ name, call.calleeKind hints scope isSub ≠ .refused name) ∨
    ∃ name, call.calleeKind hints scope isSub = .ambiguous name ∧ name ∉ hints.known ∧
      call.calleeKind later scope isSub = .helper name ∧ call.hasArguments = false := by
  unfold Call.calleeKind
  cases call.callee.helperName? scope with
  | none => exact .inl ⟨rfl, fun _ e => by cases e⟩
  | some name =>
    have hk := h.known name
    by_cases hn : name ∈ hints.known
    · simp [hn, hk hn]
    · by_cases hl : name ∈ later.known <;>
        cases call.hasArguments <;> cases isSub <;> simp [hn, hl, h.only, h.only']

theorem outlineRelation (h : hints.Grown later) :
    OutlineRelation later hints (fun _ => Outline.Thinner hints.known) where
  nothing := .refl rfl
  append := .append
  perm _ := id
  chain _ _ := .refl rfl
  text _ _ := .refl rfl
  partialName _ := .refl rfl
  call scope isSub call _ hc ha := by
    simp only [outline_invocation]
    rcases h.calleeKind_cases scope isSub call with
      ⟨e, hr⟩ | ⟨name, e, hk, e', hn⟩
    · rw [e]
      cases hk : call.calleeKind hints scope isSub with
      | helper name => exact .append (.refl rfl) ha
      | ambiguous name => exact .refl rfl
      | value =>
        dsimp only
        split
        · exact .append hc ha
        · exact hc
      | refused name => exact absurd hk (hr name)
    · -- without arguments the helper asks about nothing but itself
      rw [e, e', call.argumentsOutline_eq_nothing hn]
      have hm : (Reference.symbol .context .context name).isPlainMember hints.known = true := by
        rw [Std.ExtTreeSet.mem_iff_contains, Bool.not_eq_true] at hk
        rw [Reference.isPlainMember, hk]
        rfl
      exact .dropMember hm (.refl rfl)

/-- **More known helpers leave the same questions but for some members**, and reject nothing. -/
theorem thinner_compilationOutline (h : hints.Grown later) {source : String}
    (hs : (compilationOutline hints source).fault = none) :
    Outline.Thinner hints.known (compilationOutline later source) (compilationOutline hints source) := by
  rcases h.outlineRelation.compilationOutline source with h | ⟨error, _, e⟩
  · exact h
  · rw [e] at hs
    cases hs

end Hints.Grown

/-! ## 2. Nothing but known helpers -/

/-- The helpers that are asked about are among the known ones. -/
def Outline.HelpersIn (known : Std.ExtTreeSet String) (o : Outline) : Prop :=
  ∀ base name, .symbol .helper base name ∈ o.references → name ∈ known

/-- If only known helpers may be called, a callee is not ambiguous, and it is a helper only if it is
    known. -/
theorem calleeKind_knownOnly {hints : Hints} (h : hints.knownHelpersOnly = true) (scope : Scope)
    (isSub : Bool) (call : Call) (name : String) :
    call.calleeKind hints scope isSub ≠ .ambiguous name ∧
      (call.calleeKind hints scope isSub = .helper name → name ∈ hints.known) := by
  have hkind := call.calleeKind_spec hints scope isSub
  constructor
  · intro e
    rw [e] at hkind
    obtain ⟨_, _, ho, _⟩ := hkind
    exact Bool.noConfusion (h.symm.trans ho)
  · intro e
    rw [e] at hkind
    exact hkind.2.resolve_right fun ⟨ho, _⟩ => Bool.noConfusion (h.symm.trans ho)

theorem helpersIn_relation {hints : Hints} (h : hints.knownHelpersOnly = true) :
    OutlineRelation hints hints fun _ a _ => a.HelpersIn hints.known where
  nothing _ _ hm := by cases hm
  append ha hc base name hm := (Outline.mem_references_append hm).elim (ha base name) (hc base name)
  perm _ := id
  chain scope l base name hm := by
    obtain ⟨kind, _, _, e, hk⟩ := mem_links_chain hm
    cases e
    rcases hk with hk | hk <;> cases hk
  text reference hr base name hm := by
    cases List.mem_singleton.mp hm
    exact absurd rfl (hr _ _ _)
  partialName _ _ _ hm := by cases List.mem_singleton.mp hm
  call scope isSub call _ hc ha base name hm := by
    have hk := calleeKind_knownOnly h scope isSub call
    rw [outline_invocation] at hm
    split at hm
    · rename_i other e
      rcases Outline.mem_references_append hm with hm | hm
      · cases List.mem_singleton.mp hm
        exact (hk name).2 e
      · exact ha base name hm
    · rename_i other e
      exact absurd e (hk other).1
    · split at hm
      · exact (Outline.mem_references_append hm).elim (hc base name) (ha base name)
      · exact hc base name hm
    · cases hm

/-- **If only known helpers may be called, no other helper is asked about.** -/
theorem helpersKnown_compilationOutline {hints : Hints} (h : hints.knownHelpersOnly = true)
    (source : String) : (compilationOutline hints source).HelpersIn hints.known := by
  rcases (helpersIn_relation h).compilationOutline source with h | ⟨error, e, _⟩
  · exact h
  · rw [e]
    intro base name hm
    cases hm

end Stache
