import Stache.Proofs.Spec.Filled
import Stache.Proofs.Spec.Sites

/-!
# The calls of a template

Wherever a template calls something, its spec tree has a call, and so has the code.

* `ValueOf.calls`, `LineOf.calls` -- the calls of a spec tree;
* `calls_linesOf` -- **they are the calls of those places**, one by one;
* `calls_fill` -- to put codes in is to put them into the calls.
-/

namespace Stache

/-! ## 1. The calls of a spec tree -/

section Calls

variable {ρ : Type}

mutual

/-- The calls in a value. -/
def ValueOf.calls : ValueOf ρ → List (InvocationIn ρ)
  | .chain _ => []
  | .constant _ => []
  | .literal _ => []
  | .call call => InvocationOf.calls call

/-- A call, and those inside it. -/
def InvocationOf.calls : InvocationOf ρ (ValueOf ρ) → List (InvocationOf ρ (ValueOf ρ))
  | ⟨name, position, .helper helper ⟨params, hash⟩⟩ =>
    ⟨name, position, .helper helper ⟨params, hash⟩⟩ :: (paramsCalls params ++ hashCalls hash)
  | ⟨name, position, .ambiguous member helper⟩ => [⟨name, position, .ambiguous member helper⟩]
  | ⟨name, position, .applied value ⟨params, hash⟩⟩ =>
    ⟨name, position, .applied value ⟨params, hash⟩⟩ ::
      (value.calls ++ (paramsCalls params ++ hashCalls hash))
  | ⟨name, position, .plain value lookedUp⟩ =>
    ⟨name, position, .plain value lookedUp⟩ :: value.calls
  | ⟨name, position, .refused⟩ => [⟨name, position, .refused⟩]

/-- The calls in positional arguments. -/
def paramsCalls : List (ValueOf ρ) → List (InvocationIn ρ)
  | [] => []
  | value :: values => value.calls ++ paramsCalls values

/-- The calls in named arguments. -/
def hashCalls : List (String × ValueOf ρ) → List (InvocationIn ρ)
  | [] => []
  | (_, value) :: hash => value.calls ++ hashCalls hash

end

/-- The calls in the name of a partial. -/
def PartialNameOf.calls : PartialNameOf ρ → List (InvocationIn ρ)
  | .known _ _ => []
  | .computed call => InvocationOf.calls call

/-- The calls in the context of a partial. -/
def contextCalls : Option (ValueOf ρ) → List (InvocationIn ρ)
  | none => []
  | some value => value.calls

mutual

/-- The calls in a line. -/
def LineOf.calls : LineOf ρ → List (InvocationIn ρ)
  | .chunk _ => []
  | .escaped call => InvocationOf.calls call
  | .unescaped call => InvocationOf.calls call
  | .block main inverse call =>
    InvocationOf.calls call ++ (sectionCalls main ++ sectionCalls inverse)
  | .partialTemplate name context hash fallback =>
    name.calls ++ (contextCalls context ++ (hashCalls hash ++ sectionCalls fallback))

/-- The calls in lines. -/
def linesCalls : List (LineOf ρ) → List (InvocationIn ρ)
  | [] => []
  | line :: lines => line.calls ++ linesCalls lines

/-- The calls in a section. -/
def sectionCalls : Option (BodyOf (LineOf ρ)) → List (InvocationIn ρ)
  | none => []
  | some ⟨lines, _⟩ => linesCalls lines

end

/-- **The calls of a spec tree.** -/
def BodyOf.calls (body : BodyIn ρ) : List (InvocationIn ρ) :=
  linesCalls body.lines

theorem linesCalls_append (lines more : List (LineOf ρ)) :
    linesCalls (lines ++ more) = linesCalls lines ++ linesCalls more := by
  induction lines with
  | nil => rfl
  | cons line lines ih =>
    rw [List.cons_append, linesCalls, linesCalls, ih, List.append_assoc]

/-! ## 2. Codes in calls -/

variable {κ : Type} (code : ρ → κ)

mutual

theorem ValueOf.calls_fill : ∀ value : ValueOf ρ,
    (value.fill code).calls = value.calls.map (InvocationOf.fill code)
  | .chain _ => rfl
  | .constant _ => rfl
  | .literal _ => rfl
  | .call call => InvocationOf.calls_fill call

theorem InvocationOf.calls_fill : ∀ call : InvocationOf ρ (ValueOf ρ),
    InvocationOf.calls (InvocationOf.fill code call) =
      (InvocationOf.calls call).map (InvocationOf.fill code)
  | ⟨name, position, .helper helper ⟨params, hash⟩⟩ => by
    simp only [InvocationOf.fill, InvocationOf.calls, List.map_cons, List.map_append,
      calls_fill_params, calls_fill_hash]
  | ⟨name, position, .ambiguous member helper⟩ => rfl
  | ⟨name, position, .applied value ⟨params, hash⟩⟩ => by
    simp only [InvocationOf.fill, InvocationOf.calls, List.map_cons, List.map_append,
      value.calls_fill, calls_fill_params, calls_fill_hash]
  | ⟨name, position, .plain value lookedUp⟩ => by
    simp only [InvocationOf.fill, InvocationOf.calls, List.map_cons, value.calls_fill]
  | ⟨name, position, .refused⟩ => rfl

theorem calls_fill_params : ∀ values : List (ValueOf ρ),
    paramsCalls (paramsFill code values) = (paramsCalls values).map (InvocationOf.fill code)
  | [] => rfl
  | value :: values => by
    simp only [paramsFill, paramsCalls, List.map_append, value.calls_fill, calls_fill_params]

theorem calls_fill_hash : ∀ hash : List (String × ValueOf ρ),
    hashCalls (hashFill code hash) = (hashCalls hash).map (InvocationOf.fill code)
  | [] => rfl
  | (_, value) :: hash => by
    simp only [hashFill, hashCalls, List.map_append, value.calls_fill, calls_fill_hash]

end

theorem PartialNameOf.calls_fill : ∀ name : PartialNameOf ρ,
    (name.fill code).calls = name.calls.map (InvocationOf.fill code)
  | .known _ _ => rfl
  | .computed call => InvocationOf.calls_fill code call

theorem calls_fill_context : ∀ context : Option (ValueOf ρ),
    contextCalls (context.map fun value => value.fill code) =
      (contextCalls context).map (InvocationOf.fill code)
  | none => rfl
  | some value => value.calls_fill code

mutual

theorem LineOf.calls_fill : ∀ line : LineOf ρ,
    (line.fill code).calls = line.calls.map (InvocationOf.fill code)
  | .chunk _ => rfl
  | .escaped call => InvocationOf.calls_fill code call
  | .unescaped call => InvocationOf.calls_fill code call
  | .block main inverse call => by
    simp only [LineOf.fill, LineOf.calls, List.map_append, InvocationOf.calls_fill,
      calls_fill_section]
  | .partialTemplate name context hash fallback => by
    simp only [LineOf.fill, LineOf.calls, List.map_append, name.calls_fill, calls_fill_context,
      calls_fill_hash, calls_fill_section]

theorem calls_fill_lines : ∀ lines : List (LineOf ρ),
    linesCalls (linesFill code lines) = (linesCalls lines).map (InvocationOf.fill code)
  | [] => rfl
  | line :: lines => by
    simp only [linesFill, linesCalls, List.map_append, line.calls_fill, calls_fill_lines]

theorem calls_fill_section : ∀ body : Option (BodyOf (LineOf ρ)),
    sectionCalls (sectionFill code body) = (sectionCalls body).map (InvocationOf.fill code)
  | none => rfl
  | some ⟨lines, _⟩ => calls_fill_lines lines

end

/-- **To put codes in is to put them into the calls.** -/
theorem BodyOf.calls_fill (body : BodyIn ρ) :
    (body.fill code).calls = body.calls.map (InvocationOf.fill code) :=
  calls_fill_lines code body.lines

end Calls

/-! ## 3. From template trees to spec trees -/

section Spec

variable (hints : Hints)

/-- A place that calls a known helper has the call of that helper. -/
theorem CallSite.invocation_of_known {hints : Hints} {site : CallSite} {name : String}
    (h : site.helperName? = some name) (hk : name ∈ hints.known) :
    ∃ arguments, site.invocation hints =
      ⟨name, site.call.position, .helper (helperReference name) arguments⟩ := by
  have kind : site.call.calleeKind hints site.scope site.isSub = .helper name := by
    have hname : site.call.callee.helperName? site.scope = some name := h
    rw [Call.calleeKind, hname]
    exact if_pos hk
  exact ⟨_, Call.invocation_of_helper kind⟩

theorem CallSite.position_invocation (site : CallSite) :
    (site.invocation hints).position = site.call.position := by
  obtain ⟨scope, isSub, callee, params, hash, position⟩ := site
  rfl

mutual

theorem calls_value (scope : Scope) : ∀ e : Expr, (e.value hints scope).outline.fault = none →
    (e.value hints scope).calls = (e.sites scope).map (CallSite.invocation hints)
  | .lookup _, _ => rfl
  | .str _, _ => rfl
  | .num _, _ => rfl
  | .bool _, _ => rfl
  | .null, _ => rfl
  | .undefined, _ => rfl
  | .sub call, hf => calls_invocation scope true call hf

/-- The calls of a call are those of its place and of the places inside it. -/
theorem calls_invocation (scope : Scope) (isSub : Bool) : ∀ call : CallOf Expr,
    (InvocationOf.outline (Call.invocation hints scope isSub call)).fault = none →
    InvocationOf.calls (Call.invocation hints scope isSub call) =
      (Call.sites scope isSub call).map (CallSite.invocation hints)
  | ⟨callee, params, hash, position⟩, hf => by
    have hkind := Call.calleeKind_spec hints scope isSub ⟨callee, params, hash, position⟩
    have hsites : (Call.sites scope isSub ⟨callee, params, hash, position⟩).map
        (CallSite.invocation hints) =
          Call.invocation hints scope isSub ⟨callee, params, hash, position⟩ ::
            ((callee.sites scope).map (CallSite.invocation hints) ++
              ((paramSites scope params).map (CallSite.invocation hints) ++
                (hashSites scope hash).map (CallSite.invocation hints))) := by
      rw [Call.sites, List.map_cons, List.map_append, List.map_append]
      rfl
    rw [hsites]
    simp only [Call.invocation] at hf ⊢
    generalize Call.calleeKind hints scope isSub ⟨callee, params, hash, position⟩ = kind at hf hkind ⊢
    cases kind with
    | helper name =>
      obtain ⟨_, hb, _⟩ := Outline.of_fault_append hf
      obtain ⟨ha, hb, _⟩ := Outline.of_fault_append hb
      rw [mannerOf, InvocationOf.calls, calls_params scope params ha, calls_hash scope hash hb,
        Expr.sites_of_helperName? hkind.1]
      rfl
    | ambiguous name =>
      obtain ⟨hname, _, _, hargs, _⟩ := hkind
      obtain ⟨rfl, rfl⟩ := CallOf.eq_nil_of_not_hasArguments hargs
      rw [mannerOf, InvocationOf.calls, Expr.sites_of_helperName? hname]
      rfl
    | value =>
      rw [mannerOf] at hf ⊢
      split at hf
      · rename_i hargs
        obtain ⟨hv, hb, _⟩ := Outline.of_fault_append hf
        obtain ⟨ha, hb, _⟩ := Outline.of_fault_append hb
        rw [if_pos hargs, InvocationOf.calls, calls_value scope callee hv, calls_params scope params ha,
          calls_hash scope hash hb]
      · rename_i hargs
        obtain ⟨rfl, rfl⟩ := CallOf.eq_nil_of_not_hasArguments (Bool.not_eq_true _ ▸ hargs)
        rw [if_neg hargs, InvocationOf.calls, calls_value scope callee hf]
        exact congrArg _ (List.append_nil _).symm
    | refused name => cases hf

theorem calls_params (scope : Scope) : ∀ params : List Expr,
    (paramsOutline (paramValues hints scope params)).fault = none →
    paramsCalls (paramValues hints scope params) =
      (paramSites scope params).map (CallSite.invocation hints)
  | [], _ => rfl
  | param :: params, hf => by
    obtain ⟨ha, hb, _⟩ := Outline.of_fault_append hf
    simp only [paramValues, paramsCalls, paramSites, List.map_append, calls_value scope param ha,
      calls_params scope params hb]

theorem calls_hash (scope : Scope) : ∀ hash : List (String × Expr),
    (hashOutline (hashValues hints scope hash)).fault = none →
    hashCalls (hashValues hints scope hash) = (hashSites scope hash).map (CallSite.invocation hints)
  | [], _ => rfl
  | (_, value) :: hash, hf => by
    obtain ⟨ha, hb, _⟩ := Outline.of_fault_append hf
    simp only [hashValues, hashCalls, hashSites, List.map_append, calls_value scope value ha,
      calls_hash scope hash hb]

end

theorem calls_name (scope : Scope) : ∀ name : Expr, (partialNameOf hints scope name).outline.fault = none →
    (partialNameOf hints scope name).calls = (name.sites scope).map (CallSite.invocation hints)
  | .sub call, hf => calls_invocation hints scope true call hf
  | .lookup _, _ => rfl
  | .str _, _ => rfl
  | .num _, _ => rfl
  | .bool _, _ => rfl
  | .null, _ => rfl
  | .undefined, _ => rfl

theorem calls_context (scope : Scope) : ∀ context : Option Expr,
    (contextOutline (context.map fun e => e.value hints scope)).fault = none →
    contextCalls (context.map fun e => e.value hints scope) =
      (contextSites scope context).map (CallSite.invocation hints)
  | none, _ => rfl
  | some e, hf => calls_value hints scope e hf

/-- What ends well does so line by line. -/
theorem fault_linesOutline_append {lines more : List (LineOf Reference)}
    (h : (linesOutline (lines ++ more)).fault = none) :
    (linesOutline lines).fault = none ∧ (linesOutline more).fault = none := by
  induction lines with
  | nil => exact ⟨rfl, h⟩
  | cons line lines ih =>
    obtain ⟨ha, hb, _⟩ := Outline.of_fault_append h
    obtain ⟨hc, hd⟩ := ih hb
    refine ⟨?_, hd⟩
    rw [linesOutline, Outline.append_of_none ha]
    exact hc

mutual

theorem calls_line (scope : Scope) : ∀ s : Statement,
    (linesOutline (s.line? hints scope).toList).fault = none →
    linesCalls (s.line? hints scope).toList = (s.sites scope).map (CallSite.invocation hints)
  | .content text, _ => by
    simp only [Statement.line?, chunkLine?]
    split <;> rfl
  | .mustache call true, hf => by
    obtain ⟨hc, _, _⟩ := Outline.of_fault_append hf
    exact (List.append_nil _).trans (calls_invocation hints scope false call hc)
  | .mustache call false, hf => by
    obtain ⟨hc, _, _⟩ := Outline.of_fault_append hf
    exact (List.append_nil _).trans (calls_invocation hints scope false call hc)
  | .block call main inverse, hf => by
    obtain ⟨hl, _, _⟩ := Outline.of_fault_append hf
    obtain ⟨hm, hb, _⟩ := Outline.of_fault_append hl
    obtain ⟨hi, hc, _⟩ := Outline.of_fault_append hb
    simp only [Statement.line?, Option.toList_some, linesCalls, LineOf.calls, List.append_nil,
      Statement.sites, List.map_append, calls_invocation hints scope false call hc,
      calls_section scope main hm, calls_section scope inverse hi]
  | .partialTemplate name context hash fallback, hf => by
    obtain ⟨hl, _, _⟩ := Outline.of_fault_append hf
    obtain ⟨hn, hb, _⟩ := Outline.of_fault_append hl
    obtain ⟨hc, hb, _⟩ := Outline.of_fault_append hb
    obtain ⟨hh, hs, _⟩ := Outline.of_fault_append hb
    simp only [Statement.line?, Option.toList_some, linesCalls, LineOf.calls, List.append_nil,
      Statement.sites, List.map_append, calls_name hints scope name hn,
      calls_context hints scope context hc, calls_hash hints scope hash hh,
      calls_section scope fallback hs]

/-- **The calls of the lines of a template** are those of the places where it calls something. -/
theorem calls_linesOf (scope : Scope) : ∀ body : List Statement,
    (linesOutline (linesOf hints scope body)).fault = none →
    linesCalls (linesOf hints scope body) = (bodySites scope body).map (CallSite.invocation hints)
  | [], _ => rfl
  | s :: body, hf => by
    obtain ⟨ha, hb⟩ := fault_linesOutline_append hf
    rw [linesOf, linesCalls_append, calls_line scope s ha, calls_linesOf scope body hb, bodySites,
      List.map_append]

theorem calls_section (scope : Scope) : ∀ body : Option (ProgramOf Statement),
    (sectionOutline (sectionBody? hints scope body)).fault = none →
    sectionCalls (sectionBody? hints scope body) =
      (sectionSites scope body).map (CallSite.invocation hints)
  | none, _ => rfl
  | some ⟨body, params⟩, hf => calls_linesOf (params :: scope) body hf

end

/-- **The calls of the spec tree of a template** are those of the places where it calls something. -/
theorem Program.calls_spec (program : Program)
    (hf : (linesOutline (program.spec hints).lines).fault = none) :
    (program.spec hints).calls = program.sites.map (CallSite.invocation hints) :=
  calls_linesOf hints [] program.body hf

end Spec

end Stache
