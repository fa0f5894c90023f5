import Mathlib.Data.List.Forall2
import Stache.Proofs.Spec.Contents
import Stache.Proofs.Spec.Filled
import Stache.Proofs.Spec.Mentioned
import Stache.Proofs.Template.Numbers

/-!
# The numbers of sections

Sections are numbered while a template is written: each one before the sections inside it, and those before
whatever follows.

* `Laid` -- the functions that are numbered from some number on, and the text that they belong to, mention
  each of their numbers once, and each function mentions only later ones;
* `laid_lines` -- so it is with the lines of a template, whatever number comes next;
* `compilation_numbered` -- **the functions of a template are numbered from one without gaps**, each number
  is mentioned once, and the spec announces just what its functions need.
-/

namespace Stache

open Text (Mention mentions mentions?)

/-! ## 1. Numbered functions -/

/-- Some text and functions that are numbered from `next` on, by what they mention: each number once, in the
    text or in a function with a smaller number, and what is needed in one of them. -/
structure Laid (next : Nat) (needs : Needs) (own : Mentioned) (functions : List Mentioned) : Prop where
  once : (own.programs ++ functions.flatMap (·.programs)).Perm (List.range' next functions.length)
  later : ∀ (i : Nat) (h : i < functions.length), ∀ n ∈ functions[i].programs, next + i < n
  partials : needs.partials = (own.partials || functions.any (·.partials))
  outer : needs.depths = (own.outer || functions.any (·.outer))

/-- What is needed is mentioned, and no programs are. -/
def Mentioned.ofNeeds (needs : Needs) : Mentioned :=
  ⟨[], needs.partials, needs.depths⟩

/-- It makes no difference whether numbers stand before or behind what mentions none. -/
theorem Mentioned.programs_first (a b : List Nat) (needs : Needs) :
    ofPrograms a ++ (ofPrograms b ++ ofNeeds needs) = ofNeeds needs ++ ofPrograms (a ++ b) := by
  show both _ (both _ _) = both _ _
  simp [both, ofPrograms, ofNeeds]

/-- Nor does the order in which needs are mentioned. -/
theorem Mentioned.ofNeeds_swap (a b : Needs) (s : Mentioned) :
    ofNeeds a ++ (ofNeeds b ++ s) = ofNeeds b ++ (ofNeeds a ++ s) := by
  show both _ (both _ _) = both _ (both _ _)
  simp [both, ofNeeds, Bool.or_left_comm]

namespace Laid

variable {next : Nat} {needs needs' : Needs} {own own' : Mentioned} {functions functions' : List Mentioned}

/-- Text without sections. -/
theorem ofNeeds (needs : Needs) (next : Nat) : Laid next needs (.ofNeeds needs) [] where
  once := .refl _
  later _ h := absurd h (Nat.not_lt_zero _)
  partials := (Bool.or_false _).symm
  outer := (Bool.or_false _).symm

/-- The later functions are numbered behind the first ones. -/
theorem append (h : Laid next needs own functions)
    (h' : Laid (next + functions.length) needs' own' functions') :
    Laid next (needs.or needs') (own ++ own') (functions ++ functions') where
  once := by
    have hsplit : (own ++ own').programs = own.programs ++ own'.programs := rfl
    have hrange : List.range' next (functions ++ functions').length =
        List.range' next functions.length ++
          List.range' (next + functions.length) functions'.length := by
      rw [List.length_append, List.range'_append_1]
    rw [hsplit, hrange, List.flatMap_append]
    refine .trans ?_ (h.once.append h'.once)
    rw [List.append_assoc, List.append_assoc]
    exact .append_left _ (List.perm_append_comm_assoc ..)
  later i hi n hn := by
    rw [List.length_append] at hi
    by_cases hfirst : i < functions.length
    · rw [List.getElem_append_left hfirst] at hn
      exact h.later i hfirst n hn
    · rw [List.getElem_append_right (Nat.le_of_not_lt hfirst)] at hn
      have := h'.later (i - functions.length) (by omega) n hn
      omega
  partials := by
    show (needs.partials || needs'.partials) = ((own.partials || own'.partials) || _)
    rw [h.partials, h'.partials, List.any_append]
    simp only [Bool.or_assoc, Bool.or_left_comm]
  outer := by
    show (needs.depths || needs'.depths) = ((own.outer || own'.outer) || _)
    rw [h.outer, h'.outer, List.any_append]
    simp only [Bool.or_assoc, Bool.or_left_comm]

/-- More is needed, in text without sections. -/
theorem needing (h : Laid next needs own functions) (more : Needs) :
    Laid next (more.or needs) (.ofNeeds more ++ own) functions :=
  (ofNeeds more next).append h

/-- A text becomes a function, which is mentioned by its number. -/
theorem numbered (h : Laid (next + 1) needs own functions) (hp : needs'.partials = needs.partials)
    (hd : needs'.depths = needs.depths) : Laid next needs' (.ofPrograms [next]) (own :: functions) where
  once := by
    rw [List.flatMap_cons, List.length_cons, List.range'_succ]
    exact h.once.cons next
  later i hi n hn := by
    cases i with
    | zero =>
      have hmem := h.once.mem_iff.mp (List.mem_append_left _ hn)
      obtain ⟨hlow, _⟩ := List.mem_range'_1.mp hmem
      omega
    | succ i =>
      have := h.later i (Nat.lt_of_succ_lt_succ hi) n hn
      omega
  partials := by
    rw [hp, h.partials, List.any_cons]
    rfl
  outer := by
    rw [hd, h.outer, List.any_cons]
    rfl

end Laid

/-! ## 2. Values and calls -/

/-- The members of a chain are looked up on its base, and then on what was found. -/
theorem says_chainOf (kind : LookupKind) (base : Base) (parts : List String) :
    Says (.ofBase base) (ChainOf.text ⟨base, (linksOf kind base parts).map Reference.default⟩) := by
  cases parts with
  | nil => exact says_base base
  | cons part parts =>
    refine says_chain base (says_default kind base part) fun link hl => ?_
    obtain ⟨reference, hr, rfl⟩ := List.mem_map.mp hl
    obtain ⟨name, _, rfl⟩ := List.mem_map.mp hr
    exact says_default .context .held name

theorem says_lookup (scope : Scope) (l : Lookup) : Says (.ofBase (l.chain scope).base)
    (ChainOf.text ⟨(l.chain scope).base, (l.chain scope).links.map Reference.default⟩) := by
  unfold Lookup.chain
  split
  · exact says_chainOf _ _ _
  · split
    · exact says_chainOf _ _ _
    · exact says_chainOf _ _ _

theorem says_figures {text : String} (h : Text.IsFigures text.toList) : Says .nothing text := by
  refine ⟨[], Text.tells_of_chars fun c hc => ?_, rfl⟩
  rcases h c hc with hd | rfl | rfl
  · refine ⟨?_, ?_, ?_, ?_⟩
    all_goals
      rintro rfl
      cases hd
  · decide
  · decide

theorem says_undefined : SaysBefore .nothing "undefined" := by
  have hchars : "undefined".toList = ['u', 'n', 'd', 'e', 'f', 'i', 'n', 'e', 'd'] := String.toList_ofList
  exact ⟨[], hchars ▸ Text.tells_undefined, rfl⟩

/-- A call that receives no sections. -/
theorem SaysBefore.noSections {s : Mentioned} {code : String}
    (h : SaysBefore (s ++ .ofPrograms (numbersOf none)) code) : SaysBefore s code := by
  have hnone : Mentioned.ofPrograms (numbersOf none) = .nothing := rfl
  rwa [hnone, Mentioned.append_nothing] at h

section Values

variable (hints : Hints)

mutual

/-- What is written of a value mentions what the value needs. -/
theorem says_value (scope : Scope) : ∀ e : Expr, e.Plain → (e.value hints scope).outline.fault = none →
    SaysBefore (.ofNeeds ((e.value hints scope).fill Reference.default).needs)
      ((e.value hints scope).fill Reference.default).text
  | .lookup l, _, _ => (says_lookup scope l).before
  | .str text, _, _ => (says_quote text).before
  | .num _, hp, _ => (says_figures hp).before
  | .bool true, _, _ => (SilentText.ofList rfl).told.before
  | .bool false, _, _ => (SilentText.ofList rfl).told.before
  | .null, _, _ => (SilentText.ofList rfl).told.before
  | .undefined, _, _ => says_undefined
  | .sub call, hp, hf => (says_invocation scope true call hp hf none).noSections

/-- What is written of a call mentions what the call needs, and then its sections. -/
theorem says_invocation (scope : Scope) (isSub : Bool) : ∀ call : CallOf Expr, Call.Plain call →
    (InvocationOf.outline (Call.invocation hints scope isSub call)).fault = none →
    ∀ sections, SaysBefore
      (.ofNeeds (InvocationOf.needs (InvocationOf.fill Reference.default
        (Call.invocation hints scope isSub call))) ++ .ofPrograms (numbersOf sections))
      (InvocationOf.text sections (InvocationOf.fill Reference.default
        (Call.invocation hints scope isSub call)))
  | ⟨callee, params, hash, position⟩, ⟨hcp, hpp, hhp⟩, hf => by
    intro sections
    simp only [Call.invocation] at hf ⊢
    generalize Call.calleeKind hints scope isSub ⟨callee, params, hash, position⟩ = kind at hf ⊢
    cases kind with
    | helper name =>
      obtain ⟨_, hb, _⟩ := Outline.of_fault_append hf
      obtain ⟨ha, hb, _⟩ := Outline.of_fault_append hb
      have helper : SaysBefore .nothing (helperReference name).default :=
        (says_default .helper .helpers name).before
      have := says_invokeHelper name position sections helper (says_params scope params hpp ha)
        (says_hash scope hash hhp hb)
      rw [Mentioned.nothing_append] at this
      exact this.before
    | ambiguous name =>
      have := says_invokeAmbiguous name position sections (says_default .context .context name)
        (says_default .helper .helpers name)
      rw [← Mentioned.nothing_append (.ofPrograms _)] at this
      exact this.before
    | value =>
      rw [mannerOf] at hf ⊢
      split at hf
      · rename_i hargs
        obtain ⟨hv, hb, _⟩ := Outline.of_fault_append hf
        obtain ⟨ha, hb, _⟩ := Outline.of_fault_append hb
        rw [if_pos hargs]
        exact (says_invokeHelper _ position sections (says_value scope callee hcp hv)
          (says_params scope params hpp ha) (says_hash scope hash hhp hb)).before
      · rename_i hargs
        rw [if_neg hargs]
        exact says_plainCall _ position sections _ (says_value scope callee hcp hf)
    | refused name => cases hf

theorem says_params (scope : Scope) : ∀ params : List Expr, exprsPlain params →
    (paramsOutline (paramValues hints scope params)).fault = none →
    SaysAll (.ofNeeds (paramsNeeds (paramsFill Reference.default (paramValues hints scope params))))
      (paramTexts (paramsFill Reference.default (paramValues hints scope params)))
  | [], _, _ => .nil
  | param :: params, hp, hf => by
    obtain ⟨ha, hb, _⟩ := Outline.of_fault_append hf
    exact .cons (says_value scope param hp.1 ha) (says_params scope params hp.2 hb)

theorem says_hash (scope : Scope) : ∀ hash : List (String × Expr), fieldsPlain hash →
    (hashOutline (hashValues hints scope hash)).fault = none →
    SaysAll (.ofNeeds (hashNeeds (hashFill Reference.default (hashValues hints scope hash))))
      (hashTexts (hashFill Reference.default (hashValues hints scope hash)))
  | [], _, _ => .nil
  | (key, value) :: hash, hp, hf => by
    obtain ⟨ha, hb, _⟩ := Outline.of_fault_append hf
    exact .cons (says_fieldText key (says_value scope value hp.1 ha)) (says_hash scope hash hp.2 hb)

end

/-- A partial whose name is known. -/
theorem says_knownName (name : String) :
    SaysBefore .nothing (PartialNameOf.fill Reference.default
      (.known name (.symbol .partialTemplate .partials name))).texts.1 ∧
    SaysBefore .nothing (PartialNameOf.fill Reference.default
      (.known name (.symbol .partialTemplate .partials name))).texts.2 :=
  ⟨(says_default .partialTemplate .partials name).before, (says_quote name).before⟩

/-- The target that a partial is looked up at mentions nothing; its name mentions what it needs. -/
theorem says_name (scope : Scope) : ∀ name : Expr, name.Plain →
    (partialNameOf hints scope name).outline.fault = none →
    SaysBefore .nothing ((partialNameOf hints scope name).fill Reference.default).texts.1 ∧
      SaysBefore (.ofNeeds ((partialNameOf hints scope name).fill Reference.default).needs)
        ((partialNameOf hints scope name).fill Reference.default).texts.2
  | .sub call, hp, hf =>
    ⟨says_undefined, (says_invocation hints scope true call hp hf none).noSections⟩
  | .lookup _, _, _ => says_knownName _
  | .str _, _, _ => says_knownName _
  | .num _, _, _ => says_knownName _
  | .bool _, _, _ => says_knownName _
  | .null, _, _ => says_knownName _
  | .undefined, _, _ => says_knownName _

theorem says_context (scope : Scope) : ∀ context : Option Expr, (∀ e ∈ context, e.Plain) →
    (contextOutline (context.map fun e => e.value hints scope)).fault = none →
    SaysBefore
      (.ofNeeds (contextNeeds ((context.map fun e => e.value hints scope).map
        fun value => value.fill Reference.default)))
      ((((context.map fun e => e.value hints scope).map fun value => value.fill Reference.default).map
        ValueOf.text).getD "depth0")
  | none, _, _ => (SilentText.ofList rfl).told.before
  | some e, hp, hf => says_value hints scope e (hp e rfl) hf

end Values

/-! ## 3. Lines and sections -/

/-- The code is a function that mentions this. -/
structure FunctionSays (s : Mentioned) (code : String) : Prop where
  told : Says s code
  text : ∃ lines, code = functionText lines

/-- Whatever number comes next, the own text of the line and the functions inside it are laid out. -/
def LineLaid (line : LineOf String) : Prop :=
  ∀ next, ∃ own functions, SaysBefore own (line.written next).own ∧
    List.Forall₂ FunctionSays functions (line.written next).functions ∧ Laid next line.needs own functions

/-- The same for several lines. -/
def LinesLaid (lines : List (LineOf String)) : Prop :=
  ∀ next, ∃ own functions, SaysAll own (writtenLines next lines).own ∧
    List.Forall₂ FunctionSays functions (writtenLines next lines).functions ∧
    Laid next (linesNeeds lines) own functions

/-- The same for a section, which is mentioned by its number. -/
def SectionLaid (body : Option (BodyOf (LineOf String))) : Prop :=
  ∀ next, ∃ functions, List.Forall₂ FunctionSays functions (sectionFunctions next body) ∧
    Laid next (sectionNeeds body) (.ofPrograms (numberOf? next body).toList) functions

theorem LinesLaid.nil : LinesLaid [] :=
  fun next => ⟨.nothing, [], .nil, .nil, .ofNeeds .nothing next⟩

theorem LinesLaid.cons {line : LineOf String} {lines : List (LineOf String)} (h : LineLaid line)
    (h' : LinesLaid lines) : LinesLaid (line :: lines) := by
  intro next
  obtain ⟨own, functions, hown, hfunctions, hlaid⟩ := h next
  obtain ⟨own', functions', hown', hfunctions', hlaid'⟩ := h' (next + functions.length)
  refine ⟨own ++ own', functions ++ functions', ?_, ?_, hlaid.append hlaid'⟩
  · rw [hfunctions.length_eq] at hown'
    exact .cons hown hown'
  · rw [hfunctions.length_eq] at hfunctions'
    exact List.rel_append hfunctions hfunctions'

theorem SectionLaid.none : SectionLaid none :=
  fun next => ⟨[], .nil, .ofNeeds .nothing next⟩

/-- The lines of a section become a function, which is numbered before the functions inside it. -/
theorem SectionLaid.some {lines : List (LineOf String)} (h : LinesLaid lines) (params : List String) :
    SectionLaid (some ⟨lines, params⟩) := by
  intro next
  obtain ⟨own, functions, hown, hfunctions, hlaid⟩ := h (next + 1)
  exact ⟨own :: functions, .cons ⟨says_functionText hown, _, rfl⟩ hfunctions, hlaid.numbered rfl rfl⟩

/-- A line without sections. -/
theorem LineLaid.ofText {line : LineOf String} {text : String}
    (hw : ∀ next, line.written next = ⟨text, []⟩) (hs : SaysBefore (.ofNeeds line.needs) text) :
    LineLaid line := by
  intro next
  rw [hw]
  exact ⟨_, [], hs, .nil, .ofNeeds line.needs next⟩

/-- The call of a block receives both its sections. -/
theorem LineLaid.block {main inverse : Option (BodyOf (LineOf String))} {call : InvocationIn String}
    (hm : SectionLaid main) (hi : SectionLaid inverse)
    (hc : ∀ sections, SaysBefore (.ofNeeds (InvocationOf.needs call) ++ .ofPrograms (numbersOf sections))
      (InvocationOf.text sections call)) : LineLaid (.block main inverse call) := by
  intro next
  obtain ⟨first, hfirst, hmain⟩ := hm next
  obtain ⟨second, hsecond, hinverse⟩ := hi (next + first.length)
  have hcall : Laid (next + first.length + second.length) (InvocationOf.needs call)
      (.ofNeeds (InvocationOf.needs call)) [] := .ofNeeds _ _
  have hlaid := hmain.append (hinverse.append hcall)
  rw [List.append_nil, Mentioned.programs_first, hfirst.length_eq] at hlaid
  rw [hfirst.length_eq] at hsecond
  exact ⟨_, first ++ second, (says_appendUnescaped (hc (Option.some ⟨_, _, _⟩))).before,
    List.rel_append hfirst hsecond, hlaid⟩

/-- A partial is mentioned before all that it is rendered with. -/
theorem LineLaid.partialTemplate {name : PartialNameOf String} {context : Option (ValueOf String)}
    {hash : List (String × ValueOf String)} {fallback : Option (BodyOf (LineOf String))}
    (ht : SaysBefore .nothing name.texts.1) (hn : SaysBefore (.ofNeeds name.needs) name.texts.2)
    (hc : SaysBefore (.ofNeeds (contextNeeds context)) ((context.map ValueOf.text).getD "depth0"))
    (hh : SaysAll (.ofNeeds (hashNeeds hash)) (hashTexts hash)) (hf : SectionLaid fallback) :
    LineLaid (.partialTemplate name context hash fallback) := by
  intro next
  obtain ⟨functions, hfunctions, hlaid⟩ := hf next
  have hlaid := (((hlaid.needing (hashNeeds hash)).needing (contextNeeds context)).needing
    name.needs).needing ⟨true, false, false⟩
  have htext := says_partialText (numberOf? next fallback) ht hc hn hh
  rw [Mentioned.nothing_append, Mentioned.ofNeeds_swap] at htext
  exact ⟨_, functions, (says_appendUnescaped htext.before).before, hfunctions, hlaid⟩

section Lines

variable (hints : Hints)

mutual

theorem laid_line (scope : Scope) : ∀ s : Statement, s.Plain → ∀ line ∈ s.line? hints scope,
    line.outline.fault = none → LineLaid (line.fill Reference.default)
  | .content text, _, line, hm, _ => by
    simp only [Statement.line?, chunkLine?] at hm
    split at hm
    · cases hm
    · cases hm
      exact .ofText (fun _ => rfl) (says_appendText (says_quote text).before).before
  | .mustache call true, hp, line, hm, hf => by
    cases hm
    have hcall := (says_invocation hints scope false call hp hf none).noSections
    have function : SilentText "container.escapeExpression" := .ofList (by decide +kernel)
    exact .ofText (fun _ => rfl) (says_appendText (says_call function (.one hcall)).before).before
  | .mustache call false, hp, line, hm, hf => by
    cases hm
    have hcall := (says_invocation hints scope false call hp hf none).noSections
    exact .ofText (fun _ => rfl) (says_appendUnescaped hcall).before
  | .block call main inverse, ⟨hcp, hmp, hip⟩, line, hm, hf => by
    cases hm
    obtain ⟨hmain, hrest, _⟩ := Outline.of_fault_append hf
    obtain ⟨hinverse, hcall, _⟩ := Outline.of_fault_append hrest
    exact .block (laid_section scope main hmp hmain) (laid_section scope inverse hip hinverse)
      (says_invocation hints scope false call hcp hcall)
  | .partialTemplate name context hash fallback, ⟨hnp, hcp, hhp, hfp⟩, line, hm, hf => by
    cases hm
    obtain ⟨hname, hrest, _⟩ := Outline.of_fault_append hf
    obtain ⟨hcontext, hrest, _⟩ := Outline.of_fault_append hrest
    obtain ⟨hhash, hfallback, _⟩ := Outline.of_fault_append hrest
    obtain ⟨htarget, hshown⟩ := says_name hints scope name hnp hname
    exact .partialTemplate htarget hshown (says_context hints scope context hcp hcontext)
      (says_hash hints scope hash hhp hhash) (laid_section scope fallback hfp hfallback)

/-- **The lines of a template are laid out**, whatever number comes next. -/
theorem laid_lines (scope : Scope) : ∀ body : List Statement, statementsPlain body →
    (linesOutline (linesOf hints scope body)).fault = none →
    LinesLaid (linesFill Reference.default (linesOf hints scope body))
  | [], _, _ => .nil
  | s :: body, hp, hf => by
    rw [linesOf] at hf ⊢
    have hline := laid_line scope s hp.1
    cases hs : s.line? hints scope with
    | none =>
      rw [hs] at hf
      exact laid_lines scope body hp.2 hf
    | some line =>
      rw [hs] at hf
      obtain ⟨hfirst, hrest, _⟩ := Outline.of_fault_append hf
      exact .cons (hline line hs hfirst) (laid_lines scope body hp.2 hrest)

theorem laid_section (scope : Scope) : ∀ body : Option (ProgramOf Statement), programPlain body →
    (sectionOutline (sectionBody? hints scope body)).fault = none →
    SectionLaid (sectionFill Reference.default (sectionBody? hints scope body))
  | none, _, _ => .none
  | some ⟨body, params⟩, hp, hf => .some (laid_lines (params :: scope) body hp hf) params

end

end Lines

/-! ## 4. Block parameters -/

mutual

/-- The block parameters that the sections of a statement declare. -/
def Statement.declared : Statement → List String
  | .content _ => []
  | .mustache _ _ => []
  | .block _ main inverse => sectionDeclared main ++ sectionDeclared inverse
  | .partialTemplate _ _ _ fallback => sectionDeclared fallback

/-- The block parameters that the sections in some statements declare. -/
def bodyDeclared : List Statement → List String
  | [] => []
  | statement :: statements => statement.declared ++ bodyDeclared statements

/-- The block parameters that a section declares, and those that the sections inside it do. -/
def sectionDeclared : Option (ProgramOf Statement) → List String
  | none => []
  | some ⟨body, params⟩ => params ++ bodyDeclared body

end

/-- **The block parameters that the sections of a template declare.** -/
def Program.declared (program : Program) : List String :=
  bodyDeclared program.body

theorem declares_append (a b : List String) : (!(a ++ b).isEmpty) = (!a.isEmpty || !b.isEmpty) := by
  cases a with
  | nil => rfl
  | cons name a => rfl

section BlockParams

variable {ρ : Type}

mutual

theorem blockParams_value : ∀ value : ValueOf ρ, value.needs.blockParams = false
  | .chain _ => rfl
  | .constant _ => rfl
  | .literal _ => rfl
  | .call call => blockParams_invocation call

theorem blockParams_invocation : ∀ call : InvocationOf ρ (ValueOf ρ),
    (InvocationOf.needs call).blockParams = false
  | ⟨_, _, .helper _ ⟨params, hash⟩⟩ =>
    Bool.or_eq_false_iff.mpr ⟨blockParams_params params, blockParams_hash hash⟩
  | ⟨_, _, .ambiguous _ _⟩ => rfl
  | ⟨_, _, .applied value ⟨params, hash⟩⟩ =>
    Bool.or_eq_false_iff.mpr ⟨blockParams_value value,
      Bool.or_eq_false_iff.mpr ⟨blockParams_params params, blockParams_hash hash⟩⟩
  | ⟨_, _, .plain value _⟩ => blockParams_value value
  | ⟨_, _, .refused⟩ => rfl

theorem blockParams_params : ∀ values : List (ValueOf ρ), (paramsNeeds values).blockParams = false
  | [] => rfl
  | value :: values => Bool.or_eq_false_iff.mpr ⟨blockParams_value value, blockParams_params values⟩

theorem blockParams_hash : ∀ hash : List (String × ValueOf ρ), (hashNeeds hash).blockParams = false
  | [] => rfl
  | (_, value) :: hash => Bool.or_eq_false_iff.mpr ⟨blockParams_value value, blockParams_hash hash⟩

end

theorem blockParams_name : ∀ name : PartialNameOf ρ, name.needs.blockParams = false
  | .known _ _ => rfl
  | .computed call => blockParams_invocation call

theorem blockParams_context : ∀ context : Option (ValueOf ρ), (contextNeeds context).blockParams = false
  | none => rfl
  | some value => blockParams_value value

variable (hints : Hints) (code : Reference → ρ)

mutual

theorem blockParams_line (scope : Scope) : ∀ s : Statement,
    (linesNeeds (linesFill code (s.line? hints scope).toList)).blockParams = !s.declared.isEmpty
  | .content text => by
    simp only [Statement.line?, chunkLine?]
    split
    · rfl
    · rfl
  | .mustache call true => by
    show ((InvocationOf.needs _).blockParams || false) = false
    rw [blockParams_invocation]
    rfl
  | .mustache call false => by
    show ((InvocationOf.needs _).blockParams || false) = false
    rw [blockParams_invocation]
    rfl
  | .block call main inverse => by
    show (((sectionNeeds _).blockParams || ((sectionNeeds _).blockParams ||
      (InvocationOf.needs _).blockParams)) || false) = _
    rw [blockParams_section scope main, blockParams_section scope inverse, blockParams_invocation,
      Statement.declared, declares_append, Bool.or_false, Bool.or_false]
  | .partialTemplate name context hash fallback => by
    show ((false || (((PartialNameOf.needs _).blockParams || ((contextNeeds _).blockParams ||
      ((hashNeeds _).blockParams || (sectionNeeds _).blockParams))))) || false) = _
    rw [blockParams_name, blockParams_context, blockParams_hash, blockParams_section scope fallback,
      Statement.declared, Bool.or_false]
    rfl

/-- Block parameters are needed exactly if a section declares some. -/
theorem blockParams_lines (scope : Scope) : ∀ body : List Statement,
    (linesNeeds (linesFill code (linesOf hints scope body))).blockParams = !(bodyDeclared body).isEmpty
  | [] => rfl
  | s :: body => by
    rw [linesOf, bodyDeclared, declares_append, ← blockParams_line scope s,
      ← blockParams_lines scope body]
    cases s.line? hints scope with
    | none => rfl
    | some line => exact congrArg (· || _) (Bool.or_false _).symm

theorem blockParams_section (scope : Scope) : ∀ body : Option (ProgramOf Statement),
    (sectionNeeds (sectionFill code (sectionBody? hints scope body))).blockParams =
      !(sectionDeclared body).isEmpty
  | none => rfl
  | some ⟨body, params⟩ => by
    show (!params.isEmpty || (linesNeeds _).blockParams) = _
    rw [blockParams_lines (params :: scope) body, sectionDeclared, declares_append]

end

end BlockParams

/-! ## 5. The whole spec -/

/-- A spec of numbered functions and the function of the template. -/
def specOf (functions : List String) (main : String) (needs : Needs) : String :=
  objectText (numberedFields 1 functions ++
    [fieldText "compiler" ("[" ++ toString specRevision ++ "," ++ Text.quote runtimeVersions ++ "]"),
      fieldText "main" main] ++
    flagField "usePartial" needs.partials ++ [fieldText "useData" "true"] ++
    flagField "useDepths" needs.depths ++ flagField "useBlockParams" needs.blockParams)

theorem says_flagField (key : String) (needed : Bool) : SaysAll .nothing (flagField key needed) := by
  cases needed with
  | false => exact .nil
  | true => exact .one (says_fieldText key (SilentText.ofList rfl).told.before)

theorem says_numberedFields {functions : List Mentioned} {texts : List String}
    (h : List.Forall₂ FunctionSays functions texts) (next : Nat) :
    SaysAll (functions.foldr (· ++ ·) Mentioned.nothing) (numberedFields next texts) := by
  induction h generalizing next with
  | nil => exact .nil
  | cons first _ ih => exact .cons (says_fieldText _ first.told.before) (ih (next + 1))

theorem programs_foldr (functions : List Mentioned) :
    (functions.foldr (· ++ ·) Mentioned.nothing).programs = functions.flatMap (·.programs) := by
  induction functions with
  | nil => rfl
  | cons first functions ih =>
    rw [List.flatMap_cons, ← ih]
    rfl

/-- A spec mentions what its functions do. -/
theorem says_specOf {functions : List Mentioned} {texts : List String} {own : Mentioned} {main : String}
    (h : List.Forall₂ FunctionSays functions texts) (hmain : SaysBefore own main) (needs : Needs) :
    Says (functions.foldr (· ++ ·) Mentioned.nothing ++ own) (specOf texts main needs) := by
  have compiler : Says .nothing
      ("[" ++ toString specRevision ++ "," ++ Text.quote runtimeVersions ++ "]") := by
    have front : SilentText "[" := .ofList rfl
    have comma : SilentText "," := .ofList rfl
    have back : SilentText "]" := .ofList rfl
    exact (((front.told.append (says_toString _)).text comma).append (says_quote _)).text back
  have middle : SaysAll own [fieldText "compiler"
      ("[" ++ toString specRevision ++ "," ++ Text.quote runtimeVersions ++ "]"), fieldText "main" main] :=
    .consSilent (says_fieldText _ compiler.before) (.one (says_fieldText _ hmain))
  have data : SaysAll .nothing [fieldText "useData" "true"] :=
    .one (says_fieldText _ (SilentText.ofList rfl).told.before)
  have := says_objectText ((((((says_numberedFields h 1).append middle).append
    (says_flagField "usePartial" needs.partials)).append data).append
    (says_flagField "useDepths" needs.depths)).append
    (says_flagField "useBlockParams" needs.blockParams))
  rwa [Mentioned.append_nothing, Mentioned.append_nothing, Mentioned.append_nothing,
    Mentioned.append_nothing] at this

/-- Something is mentioned in one of several functions. -/
theorem any_mentioned {functions : List Mentioned} {texts : List String} (h : List.Forall₂ FunctionSays functions texts)
    {f : Mentioned → Bool} {m : Mention} (hf : ∀ told, f (.of told) = told.contains m) :
    functions.any f = true ↔ ∃ text ∈ texts, m ∈ mentions text := by
  induction h with
  | nil => exact ⟨nofun, fun ⟨_, hm, _⟩ => nomatch hm⟩
  | cons first _ ih =>
    rw [List.any_cons, Bool.or_eq_true, ih, ← first.told.before.of_mentions, hf, List.contains_iff_mem]
    simp only [List.mem_cons, exists_eq_or_imp]

theorem says_of_mem {functions : List Mentioned} {texts : List String}
    (h : List.Forall₂ FunctionSays functions texts) : ∀ text ∈ texts, ∃ s, FunctionSays s text := by
  induction h with
  | nil => nofun
  | cons first _ ih => exact List.forall_mem_cons.mpr ⟨⟨_, first⟩, ih⟩

/-- The numbers of the programs that some code mentions. -/
def programsIn (code : String) : List Nat :=
  (mentions code).filterMap Mention.number?

/-- **The functions of a template.** If all references are left as they are, the code of an accepted
    template is a spec whose functions are numbered from one, each with a body. The code mentions each of
    these numbers once and no other, and a function only larger ones than its own. The spec announces
    partials exactly if some function renders one, outer contexts exactly if some function looks at one, and
    block parameters exactly if some section declares any. -/
theorem compilation_numbered {hints : Hints} {source code : String}
    (h : ((compilation hints source).run leaveAll ()).1 = .ok code) :
    ∃ program functions main needs, Program.parse source = .ok program ∧
      code = specOf functions main needs ∧
      (∀ function ∈ main :: functions, ∃ lines, function = functionText lines) ∧
      (∀ text ∈ code :: main :: functions, (mentions? text.toList).isSome = true) ∧
      (programsIn code).Perm (List.range' 1 functions.length) ∧
      (∀ (i : Nat) (hi : i < functions.length), ∀ n ∈ programsIn functions[i], i + 1 < n) ∧
      (needs.partials = true ↔
        ∃ function ∈ main :: functions, Mention.partialTemplate ∈ mentions function) ∧
      (needs.depths = true ↔ ∃ function ∈ main :: functions, Mention.outer ∈ mentions function) ∧
      (needs.blockParams = true ↔ program.declared ≠ []) := by
  have hfault := (asks_compilation hints source).fault_eq_none h
  cases hparse : Program.parse source with
  | error error =>
    rw [compilationOutline, hparse] at hfault
    cases hfault
  | ok program =>
    have hrun := (Program.spec_gives (fun _ => none) hparse hfault).run_eq ()
    have hcode : code = ((program.spec hints).fill Reference.default).specText :=
      Except.ok.inj (h.symm.trans (congrArg Prod.fst hrun))
    rw [compilationOutline, hparse] at hfault
    let lines := linesFill Reference.default (linesOf hints [] program.body)
    obtain ⟨own, functions, hown, hfunctions, hlaid⟩ :=
      laid_lines hints [] program.body (plain_parse source program hparse) hfault 1
    have hmain : FunctionSays own (functionText (writtenLines 1 lines).own) :=
      ⟨says_functionText hown, _, rfl⟩
    have hall := List.Forall₂.cons hmain hfunctions
    have hspec : SaysBefore (functions.foldr (· ++ ·) Mentioned.nothing ++ own) code := by
      rw [hcode]
      exact (says_specOf hfunctions hmain.told.before (linesNeeds lines)).before
    have hsum : programsIn code = functions.flatMap (·.programs) ++ own.programs := by
      rw [← programs_foldr]
      exact congrArg Mentioned.programs hspec.of_mentions
    refine ⟨program, (writtenLines 1 lines).functions, _, linesNeeds lines, rfl, hcode, ?_, ?_, ?_, ?_, ?_,
      ?_, ?_⟩
    · intro function hm
      obtain ⟨_, hfunction⟩ := says_of_mem hall function hm
      exact hfunction.text
    · refine List.forall_mem_cons.mpr ⟨hspec.reads, fun function hm => ?_⟩
      obtain ⟨_, hfunction⟩ := says_of_mem hall function hm
      exact hfunction.told.before.reads
    · rw [hsum, ← hfunctions.length_eq]
      exact List.perm_append_comm.trans hlaid.once
    · intro i hi n hn
      have hlt : i < functions.length := hfunctions.length_eq ▸ hi
      have hfunction := (hfunctions.get hlt hi).told.before.of_mentions
      have := hlaid.later i hlt n (congrArg Mentioned.programs hfunction ▸ hn)
      omega
    · rw [hlaid.partials]
      exact any_mentioned hall fun _ => rfl
    · rw [hlaid.outer]
      exact any_mentioned hall fun _ => rfl
    · rw [show (linesNeeds lines).blockParams = _ from blockParams_lines hints Reference.default [] _,
        Bool.not_eq_true', List.isEmpty_eq_false_iff]
      rfl

/-- A template with one section, which declares no block parameters. -/
theorem compilation_numbered_inverted : ∃ code functions main needs,
    ((compilation ⟨false, ∅⟩ invertedSource).run leaveAll ()).1 = .ok code ∧
    code = specOf functions main needs ∧
    (programsIn code).Perm (List.range' 1 functions.length) ∧ needs.blockParams = false := by
  have hend := (asks_compilation ⟨false, ∅⟩ invertedSource).run_eq leaveAll ()
  rw [outline_inverted] at hend
  obtain ⟨code, hcode⟩ := hend
  obtain ⟨program, functions, main, needs, hparse, hspec, _, _, honce, _, _, _, hparams⟩ :=
    compilation_numbered hcode
  cases parse_inverted.symm.trans hparse
  refine ⟨code, functions, main, needs, hcode, hspec, honce, ?_⟩
  rw [← Bool.not_eq_true, hparams]
  exact fun h => h rfl

end Stache
