import Stache.Proofs.Spec.Outline

/-!
# The places where a template calls something

Mustaches, blocks and calls in parentheses, wherever they stand: in arguments, in the context and the name
of a partial, in sections and in fallbacks.

* `Expr.sites`, `Statement.sites` -- these places, each with the block parameters that are in scope there;
* `CallSite.Bare` -- a plain single name is called that no block parameter binds, and so maybe a helper;
* `outline_invocation` -- what is asked about at such a place, by the way the callee is treated;
* `OutlineRelation` -- a relation between the places of a template and its outlines that the parts of the
  template hand on to the whole. The induction over templates is done once, in `OutlineRelation.program`.
-/

namespace Stache

/-! ## 1. The places -/

/-- A place where a template calls something: what is called there, the block parameters that are in scope,
    and whether the call stands in parentheses. -/
structure CallSite where
  scope : Scope
  isSub : Bool
  call : Call

/-- The name that a place calls as a possible helper; no block parameter binds it. -/
def CallSite.helperName? (site : CallSite) : Option String :=
  site.call.callee.helperName? site.scope

/-- The call in the spec tree. -/
def CallSite.invocation (hints : Hints) (site : CallSite) : InvocationIn Reference :=
  Call.invocation hints site.scope site.isSub site.call

/-- A plain single name is called there -- no data variable, nothing that begins with `this` or `..` -- and no
    block parameter in scope binds it. -/
def CallSite.Bare (name : String) (site : CallSite) : Prop :=
  (∃ spelling, site.call.callee = .lookup ⟨false, 0, [name], false, spelling⟩) ∧
    ∀ params ∈ site.scope, name ∉ params

mutual

/-- The places in an expression. -/
def Expr.sites (scope : Scope) : Expr → List CallSite
  | .lookup _ => []
  | .str _ => []
  | .num _ => []
  | .bool _ => []
  | .null => []
  | .undefined => []
  | .sub call => Call.sites scope true call

/-- The place of a call, and those inside it. -/
def Call.sites (scope : Scope) (isSub : Bool) : CallOf Expr → List CallSite
  | ⟨callee, params, hash, position⟩ =>
    ⟨scope, isSub, ⟨callee, params, hash, position⟩⟩ ::
      (callee.sites scope ++ (paramSites scope params ++ hashSites scope hash))

/-- The places in positional arguments. -/
def paramSites (scope : Scope) : List Expr → List CallSite
  | [] => []
  | param :: params => param.sites scope ++ paramSites scope params

/-- The places in named arguments. -/
def hashSites (scope : Scope) : List (String × Expr) → List CallSite
  | [] => []
  | (_, value) :: hash => value.sites scope ++ hashSites scope hash

end

/-- The places in the context of a partial. -/
def contextSites (scope : Scope) : Option Expr → List CallSite
  | none => []
  | some e => e.sites scope

mutual

/-- The places in a statement. -/
def Statement.sites (scope : Scope) : Statement → List CallSite
  | .content _ => []
  | .mustache call _ => Call.sites scope false call
  | .block call main inverse =>
    Call.sites scope false call ++ (sectionSites scope main ++ sectionSites scope inverse)
  | .partialTemplate name context hash fallback =>
    name.sites scope ++ (contextSites scope context ++ (hashSites scope hash ++
      sectionSites scope fallback))

/-- The places in statements. -/
def bodySites (scope : Scope) : List Statement → List CallSite
  | [] => []
  | statement :: statements => statement.sites scope ++ bodySites scope statements

/-- The places in a section, in which its block parameters are bound. -/
def sectionSites (scope : Scope) : Option (ProgramOf Statement) → List CallSite
  | none => []
  | some ⟨body, params⟩ => bodySites (params :: scope) body

end

/-- **The places where a template calls something.** -/
def Program.sites (program : Program) : List CallSite :=
  bodySites [] program.body

/-! ## 2. Bare names -/

/-- A name has a slot unless no enclosing body declares it. -/
theorem Scope.slot?_eq_none {name : String} : ∀ {scope : Scope},
    scope.slot? name = none ↔ ∀ params ∈ scope, name ∉ params
  | [] => ⟨fun _ => nofun, fun _ => rfl⟩
  | params :: outer => by
    rw [List.forall_mem_cons, ← Scope.slot?_eq_none, Scope.slot?, ← List.idxOf?_eq_none_iff]
    cases params.idxOf? name with
    | none => simp only [Option.map_eq_none_iff, true_and]
    | some slot => simp only [reduceCtorEq, false_and]

/-- The lookup of a plain single name. -/
theorem Lookup.helperName?_eq_some {l : Lookup} {name : String} :
    l.helperName? = some name ↔ ∃ spelling, l = ⟨false, 0, [name], false, spelling⟩ := by
  obtain ⟨data, depth, parts, pinned, spelling⟩ := l
  constructor
  · intro h
    unfold helperName? at h
    split at h
    · rename_i hplain
      simp only [Bool.and_eq_true, Bool.not_eq_true', beq_iff_eq] at hplain
      obtain ⟨⟨rfl, rfl⟩, rfl⟩ := hplain
      split at h
      · cases h
        rename_i hparts
        cases hparts
        exact ⟨spelling, rfl⟩
      · cases h
    · cases h
  · rintro ⟨other, e⟩
    cases e
    rfl

/-- **A possible helper is called exactly where a bare name is.** -/
theorem CallSite.helperName?_eq_some {site : CallSite} {name : String} :
    site.helperName? = some name ↔ site.Bare name := by
  unfold helperName? Bare
  rw [← Scope.slot?_eq_none]
  cases site.call.callee with
  | lookup l =>
    simp only [Expr.helperName?, Option.filter_eq_some_iff, Lookup.helperName?_eq_some,
      Option.isNone_iff_eq_none, Expr.lookup.injEq]
  | _ => simp only [Expr.helperName?, reduceCtorEq, exists_false, false_and]

/-- A callee that may be a helper's is a lookup. -/
theorem Expr.sites_of_helperName? {scope : Scope} {e : Expr} {name : String}
    (h : e.helperName? scope = some name) : e.sites scope = [] := by
  cases e with
  | lookup _ => rfl
  | _ => cases h

/-! ## 3. Calls -/

/-- **How a callee is treated**, and when. -/
theorem Call.calleeKind_spec (hints : Hints) (scope : Scope) (isSub : Bool) (call : Call) :
    match call.calleeKind hints scope isSub with
    | .helper name => call.callee.helperName? scope = some name ∧ (name ∈ hints.known ∨
        hints.knownHelpersOnly = false ∧ (call.hasArguments = true ∨ isSub = true))
    | .ambiguous name => call.callee.helperName? scope = some name ∧ name ∉ hints.known ∧
        hints.knownHelpersOnly = false ∧ call.hasArguments = false ∧ isSub = false
    | .value => ∀ name, call.callee.helperName? scope = some name → name ∉ hints.known ∧
        hints.knownHelpersOnly = true ∧ call.hasArguments = false ∧ isSub = false
    | .refused name => call.callee.helperName? scope = some name ∧ name ∉ hints.known ∧
        hints.knownHelpersOnly = true ∧ (call.hasArguments = true ∨ isSub = true) := by
  unfold calleeKind
  cases call.callee.helperName? scope with
  | none => exact fun _ => nofun
  | some name =>
    dsimp only
    by_cases hk : name ∈ hints.known
    · rw [if_pos hk]
      exact ⟨rfl, .inl hk⟩
    · rw [if_neg hk]
      cases hints.knownHelpersOnly <;> cases call.hasArguments <;> cases isSub <;> simp [hk]

/-- The outline of the arguments of a call. -/
def Call.argumentsOutline (hints : Hints) (scope : Scope) (call : Call) : Outline :=
  paramsOutline (paramValues hints scope call.params) ++
    hashOutline (hashValues hints scope call.hash)

/-- **The outline of a call**, by the way its callee is treated. -/
theorem outline_invocation (hints : Hints) (scope : Scope) (isSub : Bool) (call : Call) :
    InvocationOf.outline (Call.invocation hints scope isSub call) =
      match call.calleeKind hints scope isSub with
      | .helper name => .one (helperReference name) ++ call.argumentsOutline hints scope
      | .ambiguous name =>
        .one (.symbol .context .context name) ++ .one (helperReference name)
      | .value =>
        if call.hasArguments then
          (call.callee.value hints scope).outline ++ call.argumentsOutline hints scope
        else (call.callee.value hints scope).outline
      | .refused name => ⟨[], some ⟨.unknownHelper name, call.position⟩⟩ := by
  obtain ⟨callee, params, hash, position⟩ := call
  simp only [Call.invocation]
  cases Call.calleeKind hints scope isSub ⟨callee, params, hash, position⟩ with
  | helper name => rfl
  | ambiguous name => rfl
  | value =>
    simp only [mannerOf]
    split
    · rfl
    · rfl
  | refused name => rfl

theorem CallOf.eq_nil_of_not_hasArguments {ε : Type} {call : CallOf ε} (h : call.hasArguments = false) :
    call.params = [] ∧ call.hash = [] := by
  rwa [hasArguments, Bool.or_eq_false_iff, Bool.not_eq_false', Bool.not_eq_false', List.isEmpty_iff,
    List.isEmpty_iff] at h

/-- A call without arguments asks about none. -/
theorem Call.argumentsOutline_eq_nothing {call : Call} (h : call.hasArguments = false)
    (hints : Hints) (scope : Scope) : call.argumentsOutline hints scope = .nothing := by
  obtain ⟨callee, params, hash, position⟩ := call
  simp only [CallOf.hasArguments, Bool.or_eq_false_iff, Bool.not_eq_false',
    List.isEmpty_iff] at h
  obtain ⟨rfl, rfl⟩ := h
  rfl

theorem linesOutline_append : ∀ lines more : List (LineOf Reference),
    linesOutline (lines ++ more) = linesOutline lines ++ linesOutline more
  | [], more => (Outline.nothing_append _).symm
  | line :: lines, more => by
    simp only [List.cons_append, linesOutline, linesOutline_append lines more,
      Outline.append_assoc]

/-! ## 4. The induction over templates -/

/-- A relation between the places where a template calls something and its outlines under two hints that
    the parts of the template hand on to the whole. -/
structure OutlineRelation (later hints : Hints)
    (R : List CallSite → Outline → Outline → Prop) : Prop where
  nothing : R [] .nothing .nothing
  append : ∀ {s t a b c d}, R s a b → R t c d → R (s ++ t) (a ++ c) (b ++ d)
  perm : ∀ {s t a b}, s.Perm t → R s a b → R t a b
  chain : ∀ (scope : Scope) (l : Lookup),
    R [] ⟨(l.chain scope).links, none⟩ ⟨(l.chain scope).links, none⟩
  text : ∀ reference : Reference, (∀ kind base name, reference ≠ .symbol kind base name) →
    R [] (.one reference) (.one reference)
  partialName : ∀ name : String, R [] (.one (.symbol .partialTemplate .partials name))
    (.one (.symbol .partialTemplate .partials name))
  call : ∀ (scope : Scope) (isSub : Bool) (call : Call) {t : List CallSite},
    R (call.callee.sites scope) (call.callee.value later scope).outline
      (call.callee.value hints scope).outline →
    R t (call.argumentsOutline later scope) (call.argumentsOutline hints scope) →
    R (⟨scope, isSub, call⟩ :: (call.callee.sites scope ++ t))
      (InvocationOf.outline (Call.invocation later scope isSub call))
      (InvocationOf.outline (Call.invocation hints scope isSub call))

namespace OutlineRelation

variable {later hints : Hints} {R : List CallSite → Outline → Outline → Prop}

mutual

theorem value (h : OutlineRelation later hints R) (scope : Scope) : ∀ e : Expr,
    R (e.sites scope) (e.value later scope).outline (e.value hints scope).outline
  | .lookup l => h.chain scope l
  | .str _ => h.text _ fun _ _ _ e => by cases e
  | .num _ => h.nothing
  | .bool _ => h.nothing
  | .null => h.nothing
  | .undefined => h.nothing
  | .sub call => h.invocation scope true call

theorem invocation (h : OutlineRelation later hints R) (scope : Scope) (isSub : Bool) :
    ∀ call : CallOf Expr, R (Call.sites scope isSub call)
      (InvocationOf.outline (Call.invocation later scope isSub call))
      (InvocationOf.outline (Call.invocation hints scope isSub call))
  | ⟨callee, params, hash, position⟩ =>
    h.call scope isSub ⟨callee, params, hash, position⟩ (h.value scope callee)
      (h.append (h.params scope params) (h.hash scope hash))

theorem params (h : OutlineRelation later hints R) (scope : Scope) : ∀ params : List Expr,
    R (paramSites scope params) (paramsOutline (paramValues later scope params))
      (paramsOutline (paramValues hints scope params))
  | [] => h.nothing
  | param :: params => h.append (h.value scope param) (h.params scope params)

theorem hash (h : OutlineRelation later hints R) (scope : Scope) :
    ∀ hash : List (String × Expr), R (hashSites scope hash)
      (hashOutline (hashValues later scope hash)) (hashOutline (hashValues hints scope hash))
  | [] => h.nothing
  | (_, value) :: hash => h.append (h.value scope value) (h.hash scope hash)

end

theorem name (h : OutlineRelation later hints R) (scope : Scope) : ∀ name : Expr,
    R (name.sites scope) (partialNameOf later scope name).outline
      (partialNameOf hints scope name).outline
  | .sub call => h.invocation scope true call
  | .lookup l => h.partialName l.spelling
  | .str value => h.partialName value
  | .num spelling => h.partialName spelling
  | .bool value => h.partialName (boolText value)
  | .null => h.partialName "null"
  | .undefined => h.partialName "undefined"

theorem context (h : OutlineRelation later hints R) (scope : Scope) : ∀ context : Option Expr,
    R (contextSites scope context) (contextOutline (context.map fun e => e.value later scope))
      (contextOutline (context.map fun e => e.value hints scope))
  | none => h.nothing
  | some e => h.value scope e

/-- A line that stands alone. -/
theorem alone {s : List CallSite} {a b : Outline} (h : R s a b) :
    R s (a ++ .nothing) (b ++ .nothing) := by
  rwa [Outline.append_nothing, Outline.append_nothing]

mutual

theorem line (h : OutlineRelation later hints R) (scope : Scope) : ∀ s : Statement,
    R (s.sites scope) (linesOutline (s.line? later scope).toList)
      (linesOutline (s.line? hints scope).toList)
  | .content text => by
    simp only [Statement.line?, chunkLine?]
    split
    · exact h.nothing
    · exact h.append (h.text _ fun _ _ _ e => by cases e) h.nothing
  | .mustache call true => alone (h.invocation scope false call)
  | .mustache call false => alone (h.invocation scope false call)
  | .block call main inverse => by
    -- the sections are asked about before the call
    refine alone (h.perm ?_ (h.append (h.body scope main) (h.append (h.body scope inverse)
      (h.invocation scope false call))))
    rw [← List.append_assoc]
    exact List.perm_append_comm
  | .partialTemplate name context hash fallback =>
    alone (h.append (h.name scope name) (h.append (h.context scope context)
      (h.append (h.hash scope hash) (h.body scope fallback))))

theorem lines (h : OutlineRelation later hints R) (scope : Scope) : ∀ body : List Statement,
    R (bodySites scope body) (linesOutline (linesOf later scope body))
      (linesOutline (linesOf hints scope body))
  | [] => h.nothing
  | s :: body => by
    simp only [linesOf, linesOutline_append]
    exact h.append (h.line scope s) (h.lines scope body)

theorem body (h : OutlineRelation later hints R) (scope : Scope) :
    ∀ body : Option (ProgramOf Statement), R (sectionSites scope body)
      (sectionOutline (sectionBody? later scope body))
      (sectionOutline (sectionBody? hints scope body))
  | none => h.nothing
  | some ⟨body, params⟩ => h.lines (params :: scope) body

end

/-- **A relation that the parts hand on holds of the whole template tree.** -/
theorem program (h : OutlineRelation later hints R) (program : Program) :
    R program.sites (linesOutline (program.spec later).lines)
      (linesOutline (program.spec hints).lines) :=
  h.lines [] program.body

/-- It holds of the whole template, if it reads. -/
theorem compilationOutline {R : Outline → Outline → Prop}
    (h : OutlineRelation later hints fun _ => R) (source : String) :
    R (compilationOutline later source) (compilationOutline hints source) ∨
      ∃ error, Stache.compilationOutline later source = ⟨[], some error⟩ ∧
        Stache.compilationOutline hints source = ⟨[], some error⟩ := by
  unfold Stache.compilationOutline
  cases Program.parse source with
  | ok program => exact .inl (h.program program)
  | error error => exact .inr ⟨error, rfl, rfl⟩

end OutlineRelation

/-- The references of a chain are members and data variables. -/
theorem mem_links_chain {scope : Scope} {l : Lookup} {reference : Reference}
    (h : reference ∈ (l.chain scope).links) :
    ∃ kind base name, reference = .symbol kind base name ∧ (kind = .context ∨ kind = .data) := by
  have links : ∀ kind base parts, (kind = .context ∨ kind = .data) →
      reference ∈ linksOf kind base parts →
      ∃ kind base name, reference = .symbol kind base name ∧ (kind = .context ∨ kind = .data) := by
    intro kind base parts hk hm
    cases parts with
    | nil => cases hm
    | cons part parts =>
      rcases List.mem_cons.mp hm with rfl | hm
      · exact ⟨kind, base, part, rfl, hk⟩
      · obtain ⟨other, _, rfl⟩ := List.mem_map.mp hm
        exact ⟨.context, .held, other, rfl, .inl rfl⟩
  unfold Lookup.chain at h
  split at h
  · exact links _ _ _ (.inr rfl) h
  · split at h
    · exact links _ _ _ (.inl rfl) h
    · exact links _ _ _ (.inl rfl) h

end Stache
