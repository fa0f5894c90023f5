import Mathlib.Data.List.Forall2
import Stache.Proofs.Spec.Lookups
import Stache.Proofs.Spec.Paths
import Stache.Proofs.Template.Grammar

/-!
# Block parameters are bound lexically

Where the lookups of a template begin, told by the bodies around them.

* `PathSite.Obeyed` -- the law: a path begins at a block parameter exactly where that binds its first name;
* `obeyed_chain`, `obeyed_callee` -- lookups obey it, and so do names that may be helpers;
* `accounted_value` to `accounted_section` -- each path of a part obeys it, and no other names are asked about;
* `paths_bound` -- **all paths of a template obey the law**;
* `partialName_unbound` -- the name of a partial is no such path.
-/

namespace Stache

/-! ## 1. The law -/

/-- A path that begins with a name: it is no data variable, has no `this` in front, and does not go up. -/
structure Lookup.Begins (l : Lookup) (name : String) (rest : List String) : Prop where
  data : l.data = false
  pinned : l.pinned = false
  depth : l.depth = 0
  parts : l.parts = name :: rest

/-- **Block parameters are bound lexically**, told of one path and what the spec tree has for it. -/
structure PathSite.Obeyed (hints : Hints) (site : PathSite) (e : PathCode) : Prop where
  /-- What begins with a name begins at a block parameter exactly if some body around declares the name. -/
  declared : ∀ name rest, site.lookup.Begins name rest →
    ((∃ level slot, e.base = .parameter level slot) ↔ ∃ params ∈ site.scope, name ∈ params)
  /-- Then it is the block parameter that binds the name. -/
  parameter : ∀ name rest, site.lookup.Begins name rest →
    ∀ level slot, e.base = .parameter level slot ↔ site.scope.Binds name level slot
  /-- The name that is bound is not asked about; the names behind it are. -/
  members : ∀ name rest, site.lookup.Begins name rest → ∀ level slot, site.scope.Binds name level slot →
    e.references = linksOf .context (.parameter level slot) rest
  /-- All else that begins with a name begins at the context, or is called as a helper. -/
  free : ∀ name rest, site.lookup.Begins name rest → site.scope.Free name → e.base = .context ∨
    e.base = .helpers ∧ ∃ isSub call, site.role = .callee isSub call ∧
      call.calleeKind hints site.scope isSub = .helper name
  /-- No other path begins at a block parameter. -/
  other : (∀ name rest, ¬ site.lookup.Begins name rest) → ∀ level slot, e.base ≠ .parameter level slot

theorem Scope.Free.not_binds {scope : Scope} {name : String} (h : scope.Free name) (level slot : Nat) :
    ¬ scope.Binds name level slot := by
  intro hb
  obtain ⟨params, hparams, hslot, _⟩ := hb.declared
  exact h params (List.mem_of_getElem? hparams) (List.mem_of_getElem? hslot)

theorem Lookup.Begins.slot?_eq {l : Lookup} {name : String} {rest : List String} (h : l.Begins name rest)
    (scope : Scope) : l.slot? scope = scope.slot? name := by
  simp [Lookup.slot?, h.data, h.pinned, h.depth, h.parts]

/-- What has a slot begins with a name. -/
theorem Lookup.begins_of_slot? {l : Lookup} {scope : Scope} {found : Nat × Nat} (h : l.slot? scope = some found) :
    ∃ name rest, l.Begins name rest := by
  unfold Lookup.slot? at h
  split at h
  · cases h
  · rename_i hplain
    simp only [Bool.or_eq_true, not_or, Bool.not_eq_true, bne_iff_ne, ne_eq, Decidable.not_not] at hplain
    cases hparts : l.parts with
    | nil =>
      rw [hparts] at h
      cases h
    | cons name rest => exact ⟨name, rest, hplain.1.1, hplain.1.2, hplain.2, hparts⟩

theorem Lookup.base_chain (scope : Scope) (l : Lookup) : (l.chain scope).base = l.base scope := by
  obtain ⟨kind, h⟩ := l.chain_eq scope
  rw [h]
  rfl

/-- A lookup that begins with a name begins at the block parameter that binds it, if one does. -/
theorem Lookup.Begins.base_chain {l : Lookup} {name : String} {rest : List String} (h : l.Begins name rest)
    {scope : Scope} {level slot : Nat} :
    (l.chain scope).base = .parameter level slot ↔ scope.Binds name level slot := by
  rw [l.base_chain, ← Scope.slot?_eq_some, ← h.slot?_eq scope]
  cases hslot : l.slot? scope with
  | some found =>
    rw [Lookup.base_of_slot? h.data hslot]
    simp [Prod.ext_iff]
  | none =>
    rw [Lookup.base_of_free h.data hslot]
    simp [h.depth]

/-- **A lookup obeys the law**, whatever it is written for. -/
theorem obeyed_chain (hints : Hints) (scope : Scope) (l : Lookup) (role : PathRole) :
    PathSite.Obeyed hints ⟨scope, l, role⟩ (.chain (l.chain scope)) where
  declared := by
    intro name rest h
    rw [← Scope.exists_binds]
    exact exists_congr fun level => exists_congr fun slot => Lookup.Begins.base_chain h
  parameter := by
    intro name rest h level slot
    exact Lookup.Begins.base_chain h
  members := by
    intro name rest h level slot hb
    have hslot : l.slot? scope = some (level, slot) := by
      rw [h.slot?_eq, Scope.slot?_eq_some]
      exact hb
    have hdata : l.data = false := h.data
    have hparts : l.parts = name :: rest := h.parts
    show (l.chain scope).links = _
    simp [Lookup.chain, hdata, hslot, hparts, chainOf]
  free := by
    intro name rest h hfree
    have hslot : l.slot? scope = none := by
      rw [h.slot?_eq, Scope.slot?_eq_none]
      exact hfree
    refine .inl ?_
    show (l.chain scope).base = _
    have hdepth : l.depth = 0 := h.depth
    rw [l.base_chain, Lookup.base_of_free h.data hslot, if_pos hdepth]
  other := by
    intro hno level slot hbase
    change (l.chain scope).base = _ at hbase
    rw [l.base_chain] at hbase
    cases hslot : l.slot? scope with
    | some found =>
      obtain ⟨name, rest, h⟩ := Lookup.begins_of_slot? hslot
      exact hno name rest h
    | none =>
      cases hdata : l.data with
      | true =>
        rw [Lookup.base_of_data hdata] at hbase
        cases hbase
      | false =>
        rw [Lookup.base_of_free hdata hslot] at hbase
        by_cases hdepth : l.depth = 0
        · simp [hdepth] at hbase
        · simp [hdepth] at hbase

/-- A free name that is called obeys the law as a helper. -/
theorem obeyed_callee {hints : Hints} {scope : Scope} {isSub : Bool} {call : Call} {l : Lookup} {name : String}
    {e : PathCode} (hcallee : call.callee = .lookup l) (hname : call.callee.helperName? scope = some name)
    (he : e.base = .context ∨ e.base = .helpers ∧ call.calleeKind hints scope isSub = .helper name) :
    PathSite.Obeyed hints ⟨scope, l, .callee isSub call⟩ e := by
  let site : CallSite := ⟨scope, isSub, call⟩
  obtain ⟨⟨spelling, hl⟩, hfree⟩ : site.Bare name := CallSite.helperName?_eq_some.mp hname
  rw [hcallee, Expr.lookup.injEq] at hl
  have hbase : ∀ level slot, e.base ≠ .parameter level slot := by
    intro level slot h
    obtain hc | ⟨hc, -⟩ := he
    · rw [hc] at h
      cases h
    · rw [hc] at h
      cases h
  have hthis : ∀ other rest, l.Begins other rest → other = name := by
    intro other rest h
    have hparts := h.parts
    rw [hl] at hparts
    exact (List.cons.inj hparts).1.symm
  refine ⟨?_, ?_, ?_, ?_, fun _ => hbase⟩
  · intro other rest h
    cases hthis other rest h
    refine iff_of_false ?_ ?_
    · rintro ⟨level, slot, hparameter⟩
      exact hbase level slot hparameter
    · rintro ⟨params, hp, hn⟩
      exact hfree params hp hn
  · intro other rest h level slot
    cases hthis other rest h
    exact iff_of_false (hbase level slot) (Scope.Free.not_binds hfree level slot)
  · intro other rest h level slot hb
    cases hthis other rest h
    exact absurd hb (Scope.Free.not_binds hfree level slot)
  · intro other rest h _
    cases hthis other rest h
    exact he.imp_right fun ⟨hc, hk⟩ => ⟨hc, isSub, call, rfl, hk⟩

/-! ## 2. All paths -/

/-- The reference of a name, the names of partials apart. -/
def Reference.isName : Reference → Bool
  | .symbol .partialTemplate _ _ => false
  | .symbol _ _ _ => true
  | .literal _ => false
  | .chunk _ => false

/-- Each of the paths obeys the law, and no names are asked about but theirs. -/
structure Accounted (hints : Hints) (sites : List PathSite) (pathCodes : List PathCode) (outline : Outline) :
    Prop where
  obeyed : List.Forall₂ (PathSite.Obeyed hints) sites pathCodes
  asked : outline.references.filter Reference.isName = pathCodes.flatMap PathCode.references

namespace Accounted

variable {hints : Hints} {s t : List PathSite} {e f : List PathCode} {a b : Outline}

theorem nothing : Accounted hints [] [] .nothing :=
  ⟨.nil, rfl⟩

theorem append (h : Accounted hints s e a) (h' : Accounted hints t f b) (ha : a.fault = none) :
    Accounted hints (s ++ t) (e ++ f) (a ++ b) := by
  refine ⟨List.rel_append h.obeyed h'.obeyed, ?_⟩
  rw [Outline.append_of_none ha, List.filter_append, List.flatMap_append, h.asked, h'.asked]

/-- What is asked about that is no name. -/
theorem silent {reference : Reference} (h : reference.isName = false) :
    Accounted hints [] [] (.one reference) := by
  refine ⟨.nil, ?_⟩
  simp [Outline.one, h]

end Accounted

theorem accounted_chain (hints : Hints) (scope : Scope) (l : Lookup) (role : PathRole) :
    Accounted hints [⟨scope, l, role⟩] [.chain (l.chain scope)] ⟨(l.chain scope).links, none⟩ := by
  refine ⟨.cons (obeyed_chain hints scope l role) .nil, ?_⟩
  show (l.chain scope).links.filter _ = (l.chain scope).links ++ []
  rw [List.append_nil, List.filter_eq_self]
  intro reference hm
  obtain ⟨kind, base, name, rfl, rfl | rfl⟩ := mem_links_chain hm
  · rfl
  · rfl

/-- A callee that may be a helper's is a lookup. -/
theorem Expr.lookup_of_helperName? {scope : Scope} {e : Expr} {name : String}
    (h : e.helperName? scope = some name) : ∃ l, e = .lookup l := by
  cases e with
  | lookup l => exact ⟨l, rfl⟩
  | _ => cases h

/-- Only a statement without paths needs no line. -/
theorem Statement.paths_of_line? {hints : Hints} {scope : Scope} {s : Statement}
    (h : s.line? hints scope = none) : s.paths scope = [] := by
  cases s with
  | content text => rfl
  | mustache call escaped => cases escaped <;> cases h
  | block call main inverse => cases h
  | partialTemplate name context hash fallback => cases h

section Paths

variable (hints : Hints)

mutual

theorem accounted_value (scope : Scope) (role : PathRole) : ∀ e : Expr,
    (e.value hints scope).outline.fault = none →
    Accounted hints (e.paths scope role) (e.value hints scope).pathCodes (e.value hints scope).outline
  | .lookup l, _ => accounted_chain hints scope l role
  | .str _, _ => .silent rfl
  | .num _, _ => .nothing
  | .bool _, _ => .nothing
  | .null, _ => .nothing
  | .undefined, _ => .nothing
  | .sub call, hf => accounted_invocation scope true call hf

theorem accounted_invocation (scope : Scope) (isSub : Bool) : ∀ call : CallOf Expr,
    (InvocationOf.outline (Call.invocation hints scope isSub call)).fault = none →
    Accounted hints (Call.paths scope isSub call)
      (InvocationOf.pathCodes (Call.invocation hints scope isSub call))
      (InvocationOf.outline (Call.invocation hints scope isSub call))
  | ⟨callee, params, hash, position⟩, hf => by
    have hkind := Call.calleeKind_spec hints scope isSub ⟨callee, params, hash, position⟩
    rw [Call.paths]
    simp only [Call.invocation] at hf ⊢
    cases hk : Call.calleeKind hints scope isSub ⟨callee, params, hash, position⟩ with
    | helper name =>
      rw [hk] at hf hkind
      obtain ⟨_, hb, _⟩ := Outline.of_fault_append hf
      obtain ⟨ha, hb, _⟩ := Outline.of_fault_append hb
      obtain ⟨l, rfl⟩ := Expr.lookup_of_helperName? hkind.1
      have first : Accounted hints [⟨scope, l, .callee isSub ⟨.lookup l, params, hash, position⟩⟩]
          [.helper (helperReference name)] (.one (helperReference name)) :=
        ⟨.cons (obeyed_callee rfl hkind.1 (.inr ⟨rfl, hk⟩)) .nil, rfl⟩
      exact first.append ((accounted_params scope params ha).append (accounted_hash scope hash hb) ha) rfl
    | ambiguous name =>
      rw [hk] at hkind
      obtain ⟨hname, _, _, hargs, _⟩ := hkind
      obtain ⟨rfl, rfl⟩ := CallOf.eq_nil_of_not_hasArguments hargs
      obtain ⟨l, rfl⟩ := Expr.lookup_of_helperName? hname
      exact ⟨.cons (obeyed_callee rfl hname (.inl rfl)) .nil, rfl⟩
    | value =>
      rw [hk, mannerOf] at hf
      rw [mannerOf]
      split at hf
      · rename_i hargs
        obtain ⟨hv, hb, _⟩ := Outline.of_fault_append hf
        obtain ⟨ha, hb, _⟩ := Outline.of_fault_append hb
        rw [if_pos hargs]
        exact (accounted_value scope _ callee hv).append
          ((accounted_params scope params ha).append (accounted_hash scope hash hb) ha) hv
      · rename_i hargs
        obtain ⟨rfl, rfl⟩ := CallOf.eq_nil_of_not_hasArguments (Bool.not_eq_true _ ▸ hargs)
        rw [if_neg hargs, paramPaths, hashPaths, List.append_nil, List.append_nil]
        exact accounted_value scope _ callee hf
    | refused name =>
      rw [hk] at hf
      cases hf

theorem accounted_params (scope : Scope) : ∀ params : List Expr,
    (paramsOutline (paramValues hints scope params)).fault = none →
    Accounted hints (paramPaths scope params) (paramsPathCodes (paramValues hints scope params))
      (paramsOutline (paramValues hints scope params))
  | [], _ => .nothing
  | param :: params, hf => by
    obtain ⟨ha, hb, _⟩ := Outline.of_fault_append hf
    exact (accounted_value scope .value param ha).append (accounted_params scope params hb) ha

theorem accounted_hash (scope : Scope) : ∀ hash : List (String × Expr),
    (hashOutline (hashValues hints scope hash)).fault = none →
    Accounted hints (hashPaths scope hash) (hashPathCodes (hashValues hints scope hash))
      (hashOutline (hashValues hints scope hash))
  | [], _ => .nothing
  | (_, value) :: hash, hf => by
    obtain ⟨ha, hb, _⟩ := Outline.of_fault_append hf
    exact (accounted_value scope .value value ha).append (accounted_hash scope hash hb) ha

end

theorem accounted_name (scope : Scope) : ∀ name : Expr,
    (partialNameOf hints scope name).outline.fault = none →
    Accounted hints (namePaths scope name) (partialNameOf hints scope name).pathCodes
      (partialNameOf hints scope name).outline
  | .sub call, hf => accounted_invocation hints scope true call hf
  | .lookup _, _ => .silent rfl
  | .str _, _ => .silent rfl
  | .num _, _ => .silent rfl
  | .bool _, _ => .silent rfl
  | .null, _ => .silent rfl
  | .undefined, _ => .silent rfl

theorem accounted_context (scope : Scope) : ∀ context : Option Expr,
    (contextOutline (context.map fun e => e.value hints scope)).fault = none →
    Accounted hints (contextPaths scope context)
      (contextPathCodes (context.map fun e => e.value hints scope))
      (contextOutline (context.map fun e => e.value hints scope))
  | none, _ => .nothing
  | some e, hf => accounted_value hints scope .value e hf

/-- What a line asks about, its sections apart. -/
def LineOf.ownOutline : LineOf Reference → Outline
  | .chunk reference => .one reference
  | .escaped call => InvocationOf.outline call
  | .unescaped call => InvocationOf.outline call
  | .block _ _ call => InvocationOf.outline call
  | .partialTemplate name context hash _ => name.outline ++ (contextOutline context ++ hashOutline hash)

theorem LineOf.ownOutline_of_fault {line : LineOf Reference} (hf : line.outline.fault = none) :
    line.ownOutline.fault = none := by
  cases line with
  | block main inverse call =>
    obtain ⟨_, hrest, _⟩ := Outline.of_fault_append hf
    obtain ⟨_, hcall, _⟩ := Outline.of_fault_append hrest
    exact hcall
  | partialTemplate name context hash fallback =>
    have hassoc : (LineOf.partialTemplate name context hash fallback).outline =
        (name.outline ++ (contextOutline context ++ hashOutline hash)) ++ sectionOutline fallback := by
      rw [LineOf.outline, Outline.append_assoc, Outline.append_assoc]
    rw [hassoc] at hf
    exact (Outline.of_fault_append hf).1
  | _ => exact hf

theorem accounted_own (scope : Scope) (s : Statement) {line : LineOf Reference}
    (hm : line ∈ s.line? hints scope) (hf : line.ownOutline.fault = none) :
    Accounted hints (s.ownPaths scope) line.ownPathCodes line.ownOutline := by
  cases s with
  | content text =>
    simp only [Statement.line?, chunkLine?] at hm
    split at hm
    · cases hm
    · cases hm
      exact .silent rfl
  | mustache call escaped =>
    cases escaped with
    | true =>
      cases hm
      exact accounted_invocation hints scope false call hf
    | false =>
      cases hm
      exact accounted_invocation hints scope false call hf
  | block call main inverse =>
    cases hm
    exact accounted_invocation hints scope false call hf
  | partialTemplate name context hash fallback =>
    cases hm
    obtain ⟨hname, hrest, _⟩ := Outline.of_fault_append hf
    obtain ⟨hcontext, hhash, _⟩ := Outline.of_fault_append hrest
    exact (accounted_name hints scope name hname).append
      ((accounted_context hints scope context hcontext).append (accounted_hash hints scope hash hhash)
        hcontext) hname

mutual

theorem accounted_line (scope : Scope) : ∀ s : Statement, ∀ line ∈ s.line? hints scope,
    line.outline.fault = none → Accounted hints (s.paths scope) line.pathCodes line.outline
  | .content text, line, hm, hf => by
    have hown := accounted_own hints scope (.content text) hm (LineOf.ownOutline_of_fault hf)
    simp only [Statement.line?, chunkLine?] at hm
    split at hm
    · cases hm
    · cases hm
      exact hown
  | .mustache call true, line, hm, hf => by
    have hown := accounted_own hints scope (.mustache call true) hm (LineOf.ownOutline_of_fault hf)
    cases hm
    exact hown
  | .mustache call false, line, hm, hf => by
    have hown := accounted_own hints scope (.mustache call false) hm (LineOf.ownOutline_of_fault hf)
    cases hm
    exact hown
  | .block call main inverse, line, hm, hf => by
    have hown := accounted_own hints scope (.block call main inverse) hm (LineOf.ownOutline_of_fault hf)
    cases hm
    obtain ⟨hmain, hrest, _⟩ := Outline.of_fault_append hf
    obtain ⟨hinverse, _, _⟩ := Outline.of_fault_append hrest
    exact (accounted_section scope main hmain).append
      ((accounted_section scope inverse hinverse).append hown hinverse) hmain
  | .partialTemplate name context hash fallback, line, hm, hf => by
    have hhead := LineOf.ownOutline_of_fault hf
    have hown := accounted_own hints scope (.partialTemplate name context hash fallback) hm hhead
    cases hm
    obtain ⟨_, hrest, _⟩ := Outline.of_fault_append hf
    obtain ⟨_, hrest, _⟩ := Outline.of_fault_append hrest
    obtain ⟨_, hfallback, _⟩ := Outline.of_fault_append hrest
    have hall := hown.append (accounted_section scope fallback hfallback) hhead
    rw [LineOf.ownOutline, Outline.append_assoc, Outline.append_assoc] at hall
    exact hall

theorem accounted_lines (scope : Scope) : ∀ body : List Statement,
    (linesOutline (linesOf hints scope body)).fault = none →
    Accounted hints (bodyPaths scope body) (linesPathCodes (linesOf hints scope body))
      (linesOutline (linesOf hints scope body))
  | [], _ => .nothing
  | s :: body, hf => by
    have hline := accounted_line scope s
    rw [linesOf, linesOutline_append] at hf
    rw [linesOf, linesOutline_append, linesPathCodes_append, bodyPaths]
    obtain ⟨hfirst, hrest, _⟩ := Outline.of_fault_append hf
    refine Accounted.append ?_ (accounted_lines scope body hrest) hfirst
    cases hs : s.line? hints scope with
    | none =>
      rw [Statement.paths_of_line? hs]
      exact .nothing
    | some line =>
      rw [hs] at hfirst
      show Accounted hints _ (line.pathCodes ++ []) (line.outline ++ .nothing)
      rw [List.append_nil, Outline.append_nothing]
      have hnone : (line.outline ++ Outline.nothing).fault = none := hfirst
      rw [Outline.append_nothing] at hnone
      exact hline line hs hnone

theorem accounted_section (scope : Scope) : ∀ body : Option (ProgramOf Statement),
    (sectionOutline (sectionBody? hints scope body)).fault = none →
    Accounted hints (sectionPaths scope body) (sectionPathCodes (sectionBody? hints scope body))
      (sectionOutline (sectionBody? hints scope body))
  | none, _ => .nothing
  | some ⟨body, params⟩, hf => accounted_lines (params :: scope) body hf

end

end Paths

/-- **Block parameters are bound lexically**, in every template tree that code is made of: each path obeys the
    law, and no names are asked about but theirs and the names of partials. -/
theorem paths_bound {hints : Hints} {program : Program} {σ : Type}
    {policy : Reference → σ → Option String × σ} {state : σ} {code : String}
    (h : ((program.generation hints).run policy state).1 = .ok code) :
    List.Forall₂ (PathSite.Obeyed hints) program.paths (program.spec hints).pathCodes ∧
      ((program.generation hints).asked policy state).filter Reference.isName =
        (program.spec hints).pathCodes.flatMap PathCode.references := by
  have hasks := program.asks_generation hints
  have haccounted := accounted_lines hints [] program.body (hasks.fault_eq_none h)
  rw [hasks.asked_eq]
  exact ⟨haccounted.obeyed, haccounted.asked⟩

/-! ## 3. Two templates -/

/-- A section with a parameter, and a path behind it. -/
def memberProgram : Program :=
  ⟨[.block ⟨.lookup (.ofNames false 0 ["a", "b"] "a.b"), [], [], .start⟩
    (some ⟨[.mustache ⟨.lookup (.ofNames false 0 ["x", "c"] "x.c"), [], [], .start⟩ true], ["x"]⟩) none], []⟩

theorem paths_bound_member : ∃ code,
    ((memberProgram.generation ⟨false, ∅⟩).run leaveAll ()).1 = .ok code ∧
      List.Forall₂ (PathSite.Obeyed ⟨false, ∅⟩) memberProgram.paths
        (memberProgram.spec ⟨false, ∅⟩).pathCodes ∧
      ((memberProgram.generation ⟨false, ∅⟩).asked leaveAll ()).filter Reference.isName =
        (memberProgram.spec ⟨false, ∅⟩).pathCodes.flatMap PathCode.references := by
  have hrun : ((memberProgram.generation ⟨false, ∅⟩).run leaveAll ()).1 =
      .ok ((memberProgram.spec ⟨false, ∅⟩).fill Reference.default).specText := rfl
  exact ⟨_, hrun, paths_bound hrun⟩

/-- A partial with the name of a block parameter that is in scope. -/
def shadowedSource : String := "\x7b\x7b#each xs as |x|\x7d\x7d\x7b\x7b> x\x7d\x7d\x7b\x7b/each\x7d\x7d"

/-- `{{#each xs as |x|}}` -/
def eachCall : Call :=
  ⟨.lookup (.ofNames false 0 ["each"] "each"), [.lookup (.ofNames false 0 ["xs"] "xs")], [], .start⟩

theorem scan_shadowed : scan shadowedSource =
    .ok [.tag ⟨.block, [.id "each", .id "xs", .id "as", .pipe, .id "x", .pipe], .start⟩,
      .tag ⟨.partialTemplate, [.id "x"], ⟨1, 20⟩⟩, .tag ⟨.close, [.id "each"], ⟨1, 27⟩⟩] := by
  have tokens : Token.tokenize ['e', 'a', 'c', 'h', ' ', 'x', 's', ' ', 'a', 's', ' ', '|', 'x', '|'] =
      .ok [.id "each", .id "xs", .id "as", .pipe, .id "x", .pipe] := eq_ok_of_toOption (by decide +kernel)
  have name : Token.tokenize [' ', 'x'] = .ok [.id "x"] := eq_ok_of_toOption (by decide +kernel)
  have close : Token.tokenize ['e', 'a', 'c', 'h'] = .ok [.id "each"] := eq_ok_of_toOption (by decide +kernel)
  have pieces : pieces shadowedSource.toList =
      [.tag ⟨.block, false, false, ['e', 'a', 'c', 'h', ' ', 'x', 's', ' ', 'a', 's', ' ', '|', 'x', '|']⟩ .start,
        .tag ⟨.partialTemplate, false, false, [' ', 'x']⟩ ⟨1, 20⟩,
        .tag ⟨.close, false, false, ['e', 'a', 'c', 'h']⟩ ⟨1, 27⟩] := by decide +kernel
  rw [scan, pieces]
  simp only [Segment.ofPieces, Segment.readTag, tokens, name, close]
  rfl

theorem ofTokens_each : Call.ofTokens .start [.id "each", .id "xs"] = .ok eachCall := by
  have arguments : readArguments .start false [.id "xs"] =
      .ok ⟨[.lookup (.ofNames false 0 ["xs"] "xs")], [], [], by simp⟩ := by
    rw [readArguments]
    · rw [if_neg Bool.false_ne_true, readExpr]
      show (do
        let more ← readArguments .start false []
        _) = _
      rw [readArguments]
      rfl
    all_goals simp
  have callee : readExpr .start [.id "each", .id "xs"] =
      .ok ⟨.lookup (.ofNames false 0 ["each"] "each"), [.id "xs"], by simp⟩ := by
    rw [readExpr]
    rfl
  rw [Call.ofTokens, readCall, if_neg (List.cons_ne_nil _ _), callee]
  show (do
    let arguments ← readArguments .start false [.id "xs"]
    _) >>= _ = _
  rw [arguments]
  rfl

theorem parse_shadowed : Program.parse shadowedSource = .ok ⟨[.block eachCall
    (some ⟨[.partialTemplate (.lookup (.ofNames false 0 ["x"] "x")) none [] none], ["x"]⟩) none], []⟩ := by
  have opened : (Segment.tag ⟨.block, [.id "each", .id "xs", .id "as", .pipe, .id "x", .pipe], .start⟩).part =
      .ok (.block false eachCall ["x"]) := by
    show ((do
      let call ← Call.ofTokens .start [.id "each", .id "xs"]
      _) : Except Fault Part).mapError _ = _
    rw [ofTokens_each]
    rfl
  have named : (Segment.tag ⟨.partialTemplate, [.id "x"], ⟨1, 20⟩⟩).part =
      .ok (.partialTemplate ⟨.lookup (.ofNames false 0 ["x"] "x"), none, []⟩) := by
    show ((PartialHead.ofTokens ⟨1, 20⟩ [.id "x"]).map Part.partialTemplate).mapError _ = _
    unfold PartialHead.ofTokens readArguments
    rfl
  have parts : [Segment.tag ⟨.block, [.id "each", .id "xs", .id "as", .pipe, .id "x", .pipe], .start⟩,
      .tag ⟨.partialTemplate, [.id "x"], ⟨1, 20⟩⟩, .tag ⟨.close, [.id "each"], ⟨1, 27⟩⟩].mapM Segment.part =
      .ok [.block false eachCall ["x"], .partialTemplate ⟨.lookup (.ofNames false 0 ["x"] "x"), none, []⟩,
        .close "each"] := by
    simp only [List.mapM_cons, List.mapM_nil, opened, named]
    rfl
  rw [Program.parse, scan_shadowed]
  exact Derives.ofSegments ⟨_, parts, .block false _ ["x"] (.closed (.partialTemplate _ .nil)) .nil, rfl⟩

/-- **The name of a partial is looked up among the partials**, whether a block parameter binds it or not. -/
theorem partialName_unbound : ∃ program call l invocation, Program.parse shadowedSource = .ok program ∧
    program.body = [.block call (some ⟨[.partialTemplate (.lookup l) none [] none], ["x"]⟩) none] ∧
    l.Begins "x" [] ∧ Scope.Binds [["x"]] "x" 0 0 ∧
    (program.spec ⟨false, ∅⟩).lines = [.block (some ⟨[.partialTemplate
      (.known "x" (.symbol .partialTemplate .partials "x")) none [] none], ["x"]⟩) none invocation] :=
  ⟨_, _, _, _, parse_shadowed, rfl, ⟨rfl, rfl, rfl, rfl⟩, Scope.slot?_eq_some.mp rfl, rfl⟩

end Stache
