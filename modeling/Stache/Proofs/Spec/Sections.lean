import Stache.Proofs.Spec.Paths
import Stache.Proofs.Spec.Standing

/-!
# The sections of a template

Each section becomes a function with a number, by which it is called. The call announces how many block
parameters the section takes.

* `Section`, `Program.sections` -- the sections of a template in the order of their numbers, each with the
  heads of those around it;
* `SectionHead.announced` -- what a call announces: nothing for the inverse of a block, whatever that declares;
* `Placed` -- functions are those of the sections from a number on, and each of these sections is called;
* `InvocationOf.stands_sections`, `stands_fallback` -- sections are called where a block or a partial is written;
* `placed_statement`, `placed_body` -- **the functions of a template are those of its sections**, in the order of
  their numbers, and each of these is called.
-/

namespace Stache

open Dialogue (always codeFrom)
open Text (Sound Stands)

/-! ## 1. Sections -/

/-- What a section is for. -/
inductive SectionRole where
  /-- A block renders it if its call does so. -/
  | main
  /-- A block renders it if its call does not render the main section. -/
  | inverse
  /-- It is what a partial wraps. -/
  | fallback
  deriving DecidableEq, Repr

/-- What a section is for, and the block parameters that it declares. -/
structure SectionHead where
  role : SectionRole
  params : List String
  deriving DecidableEq, Repr

/-- How many block parameters the call of a section announces. -/
def SectionHead.announced (head : SectionHead) : Nat :=
  match head.role with
  | .main => head.params.length
  | .inverse => 0
  | .fallback => 0

/-- A section of a template: its head, those of the sections around it, the innermost first, and its
    statements. -/
structure Section where
  head : SectionHead
  outer : List SectionHead
  body : List Statement

namespace Section

/-- The head of the section and those around it. -/
def heads (s : Section) : List SectionHead :=
  s.head :: s.outer

/-- The block parameters that are in scope. -/
def scope (s : Section) : Scope :=
  s.heads.map SectionHead.params

end Section

mutual

/-- The sections of a statement, among those with the given heads. -/
def Statement.sections (outer : List SectionHead) : Statement → List Section
  | .content _ => []
  | .mustache _ _ => []
  | .block _ main inverse => sectionsFrom .main outer main ++ sectionsFrom .inverse outer inverse
  | .partialTemplate _ _ _ fallback => sectionsFrom .fallback outer fallback

/-- The sections in statements. -/
def bodySections (outer : List SectionHead) : List Statement → List Section
  | [] => []
  | statement :: statements => statement.sections outer ++ bodySections outer statements

/-- A section, and behind it those inside it. -/
def sectionsFrom (role : SectionRole) (outer : List SectionHead) : Option (ProgramOf Statement) → List Section
  | none => []
  | some ⟨body, params⟩ => ⟨⟨role, params⟩, outer, body⟩ :: bodySections (⟨role, params⟩ :: outer) body

end

/-- **The sections of a template**, in the order of their numbers. -/
def Program.sections (program : Program) : List Section :=
  bodySections [] program.body

/-- The function that statements become behind the number `number`. -/
def bodyFunction (hints : Hints) (code : Reference → String) (scope : Scope) (number : Nat)
    (body : List Statement) : String :=
  functionText (writtenLines (number + 1) (linesFill code (linesOf hints scope body))).own

/-- The function of a section. -/
def Section.function (hints : Hints) (code : Reference → String) (s : Section) (number : Nat) : String :=
  bodyFunction hints code s.scope number s.body

/-- What the spec tree has for the paths of a section, those of the sections inside it apart. -/
def Section.pathCodes (hints : Hints) (s : Section) : List PathCode :=
  (linesOf hints s.scope s.body).flatMap LineOf.ownPathCodes

/-! ## 2. Calls of sections -/

/-- One of the texts calls the section by its number, outside literals. -/
def CalledIn (s : Section × Nat) (texts : List String) : Prop :=
  ∃ text ∈ texts, Stands (programText s.2 s.1.head.announced) text

theorem CalledIn.mono {s : Section × Nat} {texts more : List String} (h : CalledIn s texts) (hs : texts ⊆ more) :
    CalledIn s more := by
  obtain ⟨text, hm, hstands⟩ := h
  exact ⟨text, hs hm, hstands⟩

/-- The functions are those of the sections, which are numbered from `next` on, and each of these is called in a
    function or in a text of its own. -/
structure Placed (hints : Hints) (code : Reference → String) (sections : List Section) (next : Nat)
    (own functions : List String) : Prop where
  functions_eq : functions = (sections.zipIdx next).map fun s => s.1.function hints code s.2
  called : ∀ s ∈ sections.zipIdx next, CalledIn s (own ++ functions)

namespace Placed

variable {hints : Hints} {code : Reference → String} {sections more : List Section} {next : Nat}
  {own own' functions functions' : List String}

theorem nothing (own : List String) : Placed hints code [] next own [] :=
  ⟨rfl, nofun⟩

theorem length_eq (h : Placed hints code sections next own functions) : functions.length = sections.length := by
  rw [h.functions_eq, List.length_map, List.length_zipIdx]

/-- The later sections are numbered behind the first ones. -/
theorem append (h : Placed hints code sections next own functions)
    (h' : Placed hints code more (next + functions.length) own' functions') :
    Placed hints code (sections ++ more) next (own ++ own') (functions ++ functions') := by
  have hzip : (sections ++ more).zipIdx next =
      sections.zipIdx next ++ more.zipIdx (next + functions.length) := by
    rw [List.zipIdx_append, h.length_eq]
  refine ⟨?_, fun s hs => ?_⟩
  · rw [hzip, List.map_append, ← h.functions_eq, ← h'.functions_eq]
  · rw [hzip] at hs
    rcases List.mem_append.mp hs with hs | hs
    · refine (h.called s hs).mono (List.append_subset.mpr ⟨?_, ?_⟩)
      · exact List.subset_append_of_subset_left _ (List.subset_append_left _ _)
      · exact List.subset_append_of_subset_right _ (List.subset_append_left _ _)
    · refine (h'.called s hs).mono (List.append_subset.mpr ⟨?_, ?_⟩)
      · exact List.subset_append_of_subset_left _ (List.subset_append_right _ _)
      · exact List.subset_append_of_subset_right _ (List.subset_append_right _ _)

/-- What is called in the own texts is called in a text that these stand in. -/
theorem within (h : Placed hints code sections next own functions) {line : String}
    (hs : ∀ text ∈ own, Stands text line) : Placed hints code sections next [line] functions := by
  refine ⟨h.functions_eq, fun s hm => ?_⟩
  obtain ⟨text, htext, hstands⟩ := h.called s hm
  rcases List.mem_append.mp htext with htext | htext
  · exact ⟨line, List.mem_cons_self, hstands.trans (hs text htext)⟩
  · exact ⟨text, List.mem_cons_of_mem _ htext, hstands⟩

/-- A section, with its statements placed behind its number. -/
theorem enclosed {head : SectionHead} {outer : List SectionHead} {body : List Statement}
    (h : Placed hints code sections (next + 1)
      (writtenLines (next + 1) (linesFill code (linesOf hints (head.params :: outer.map (·.params)) body))).own
      functions)
    (hsound : ∀ text ∈ (writtenLines (next + 1)
      (linesFill code (linesOf hints (head.params :: outer.map (·.params)) body))).own, Sound text.toList) :
    Placed hints code (⟨head, outer, body⟩ :: sections) next [programText next head.announced]
      (bodyFunction hints code (head.params :: outer.map (·.params)) next body :: functions) := by
  refine ⟨?_, fun s hm => ?_⟩
  · rw [List.zipIdx_cons, List.map_cons, ← h.functions_eq]
    rfl
  · rw [List.zipIdx_cons] at hm
    rcases List.mem_cons.mp hm with rfl | hm
    · exact ⟨_, List.mem_cons_self, .refl _⟩
    · obtain ⟨text, htext, hstands⟩ := h.called s hm
      rcases List.mem_append.mp htext with htext | htext
      · -- what is called in a line of the section is called in its function
        refine ⟨_, List.mem_cons_of_mem _ List.mem_cons_self, hstands.trans ?_⟩
        exact stands_of_mem functionText drafted_functionText (by decide) hsound htext
      · exact ⟨text, List.mem_cons_of_mem _ (List.mem_cons_of_mem _ htext), hstands⟩

end Placed

/-- The sections of a block stand in its options. -/
theorem stands_optionsText (name : String) (position : Position) {hash : String} (hh : Sound hash.toList)
    (sections : SectionNumbers) : ∀ field ∈ sections.fields,
      Stands field (optionsText name position hash (some sections)) := by
  intro field hm
  have data : Sound "data".toList := sound_ofList rfl
  have own : ∀ field ∈ sections.fields, Sound field.toList :=
    (draftedAll_sections (some sections)).sound sound_empty
  have hall : ∀ field ∈ [fieldText "name" (Text.quote name), fieldText "hash" hash] ++ sections.fields ++
      [fieldText "data" "data", fieldText "loc" (locationText position)], Sound field.toList := by
    refine List.forall_mem_append.mpr ⟨List.forall_mem_append.mpr ⟨?_, own⟩, ?_⟩
    · exact (DraftedAll.two (drafted_fieldText _ (.ofSound (Text.sound_quote name)))
        (drafted_fieldText _ (.ofSound hh))).sound sound_empty
    · exact (DraftedAll.two (drafted_fieldText _ (.ofSound data))
        (drafted_fieldText _ (drafted_locationText position))).sound sound_empty
  exact stands_objectText hall (List.mem_append_left _ (List.mem_append_right _ hm))

/-- The sections of a block stand in a call that ends with its options. -/
theorem stands_withOptions {function : String} (hf : Sound function.toList) {front : List String}
    (hs : ∀ text ∈ front, Sound text.toList) (name : String) (position : Position) {hash : String}
    (hh : Sound hash.toList) (sections : SectionNumbers) : ∀ field ∈ sections.fields,
      Stands field (applyText function (front ++ [optionsText name position hash (some sections)])) := by
  intro field hm
  have hoptions : Sound (optionsText name position hash (some sections)).toList :=
    (drafted_optionsText name position (.ofSound hh) (some sections)).sound sound_empty
  have hall := List.forall_mem_append.mpr ⟨hs, sound_one hoptions⟩
  exact (stands_optionsText name position hh sections field hm).trans
    (stands_applyText hf hall (List.mem_append_right front (List.mem_singleton.mpr rfl)))

theorem stands_helperSections (name : String) (position : Position) (sections : SectionNumbers) {helper : String}
    {params hash : List String} (hf : Sound helper.toList) (hp : ∀ text ∈ params, Sound text.toList)
    (hh : ∀ text ∈ hash, Sound text.toList) : ∀ field ∈ sections.fields,
      Stands field (applyText "invokeHelper" [helper, "alias1", "[" ++ String.intercalate "," params ++ "]",
        optionsText name position (objectText hash) (some sections)]) := by
  have function : Sound "invokeHelper".toList := sound_ofList rfl
  have hlist : Sound ("[" ++ String.intercalate "," params ++ "]").toList :=
    (drafted_listText (.ofSound hp)).sound sound_empty
  have hobject : Sound (objectText hash).toList := (drafted_objectText (.ofSound hh)).sound sound_empty
  exact stands_withOptions function (sound_cons hf (sound_cons sound_alias (sound_one hlist))) name position
    hobject sections

section Calls

variable {answers : Reference → Option String}

/-- **The sections of a block stand in its call**, however it is carried out. -/
theorem InvocationOf.stands_sections (ha : AnswersSound (σ := Unit) (always answers)) (sections : SectionNumbers) :
    ∀ call : InvocationIn Reference, InvocationOf.Plain call → (InvocationOf.outline call).fault = none →
    ∀ field ∈ sections.fields,
      Stands field (InvocationOf.text (some sections) (InvocationOf.fill (codeFrom answers) call))
  | ⟨name, position, .helper helper ⟨params, hash⟩⟩, ⟨hp, hh⟩, hf => by
    obtain ⟨_, hb, _⟩ := Outline.of_fault_append hf
    obtain ⟨hfp, hfh, _⟩ := Outline.of_fault_append hb
    exact stands_helperSections name position sections (sound_codeFrom ha helper)
      (sound_fill_params ha hp hfp) (sound_fill_hash ha hh hfh)
  | ⟨name, position, .ambiguous member helper⟩, _, _ => by
    have function : Sound "invokeBlock".toList := sound_ofList rfl
    have hmember : Sound (ChainOf.text ⟨.context, [codeFrom answers member]⟩).toList :=
      (drafted_chain .context (.one (.ofSound (sound_codeFrom ha member)))).sound sound_empty
    have hobject : Sound (objectText []).toList := (drafted_objectText .nil).sound sound_empty
    have front := sound_cons (sound_codeFrom ha helper) (sound_cons hmember (sound_one sound_alias))
    exact stands_withOptions function front name position hobject sections
  | ⟨name, position, .applied value ⟨params, hash⟩⟩, ⟨hv, hp, hh⟩, hf => by
    obtain ⟨hfv, hb, _⟩ := Outline.of_fault_append hf
    obtain ⟨hfp, hfh, _⟩ := Outline.of_fault_append hb
    exact stands_helperSections name position sections (value.sound_fill ha hv hfv)
      (sound_fill_params ha hp hfp) (sound_fill_hash ha hh hfh)
  | ⟨name, position, .plain value lookedUp⟩, hp, hf => by
    have function : Sound "container.hooks.blockHelperMissing.call".toList := sound_ofList rfl
    have hobject : Sound (objectText []).toList := (drafted_objectText .nil).sound sound_empty
    have front := sound_cons sound_alias (sound_one (value.sound_fill ha hp hf))
    exact stands_withOptions function front name position hobject sections
  | ⟨_, _, .refused⟩, _, hf => by cases hf

/-- The wrapped section of a partial stands where the partial is rendered. -/
theorem stands_fallback {name : PartialNameOf String} {context : Option (ValueOf String)}
    {hash : List (String × ValueOf String)}
    (hn : Sound name.texts.1.toList ∧ Sound name.texts.2.toList)
    (hc : Sound ((context.map ValueOf.text).getD "depth0").toList)
    (hh : ∀ text ∈ hashTexts hash, Sound text.toList) (number : Nat) :
    Stands (programText number 0) (partialText name context hash (some number)) := by
  let fields := [fieldText "name" name.texts.2, fieldText "hash" (objectText (hashTexts hash)),
    fieldText "data" "data", fieldText "helpers" "helpers", fieldText "partials" "partials",
    fieldText "decorators" "container.decorators", fieldText "fn" (programText number 0)]
  have function : Sound "container.invokePartial".toList := sound_ofList rfl
  have plain (key value : String) (hv : Sound value.toList) : Sound (fieldText key value).toList :=
    (drafted_fieldText key (.ofSound hv)).sound sound_empty
  have hobject : Sound (objectText (hashTexts hash)).toList :=
    (drafted_objectText (.ofSound hh)).sound sound_empty
  have hfields : ∀ field ∈ fields, Sound field.toList :=
    sound_cons (plain _ _ hn.2) (sound_cons (plain _ _ hobject)
      (sound_cons (plain "data" "data" (sound_ofList rfl))
        (sound_cons (plain "helpers" "helpers" (sound_ofList rfl))
          (sound_cons (plain "partials" "partials" (sound_ofList rfl))
            (sound_cons (plain "decorators" "container.decorators" (sound_ofList rfl))
              (sound_one (plain _ _ (sound_programText number 0))))))))
  have hoptions : Sound (objectText fields).toList := (drafted_objectText (.ofSound hfields)).sound sound_empty
  have hfield : Stands (programText number 0) (fieldText "fn" (programText number 0)) :=
    stands_fieldText "fn" (sound_programText number 0)
  have hobject : Stands (programText number 0) (objectText fields) :=
    hfield.trans (stands_objectText hfields (by simp [fields]))
  show Stands _ (applyText "container.invokePartial"
    [name.texts.1, (context.map ValueOf.text).getD "depth0", objectText fields])
  exact hobject.trans (stands_applyText function (sound_cons hn.1 (sound_cons hc (sound_one hoptions))) (by simp))

/-! ## 3. The sections of a template are placed -/

/-- Only a statement without sections needs no line. -/
theorem Statement.sections_of_line? {hints : Hints} {scope : Scope} {s : Statement}
    (h : s.line? hints scope = none) (outer : List SectionHead) : s.sections outer = [] := by
  cases s with
  | content text => rfl
  | mustache call escaped => rfl
  | block call main inverse => cases h
  | partialTemplate name context hash fallback => cases h

/-- What calls a section, if there is one. -/
def sectionCalls? (role : SectionRole) (next : Nat) (body : Option (ProgramOf Statement)) : List String :=
  (body.map fun program => programText next (SectionHead.announced ⟨role, program.blockParams⟩)).toList

section Placed

variable (hints : Hints)

/-- The sections of a block are called in its line. -/
theorem stands_block (ha : AnswersSound (σ := Unit) (always answers)) (scope : Scope)
    {call : InvocationIn Reference} (hp : InvocationOf.Plain call) (hf : (InvocationOf.outline call).fault = none)
    (main inverse : Option (ProgramOf Statement)) (next behind : Nat) :
    ∀ text ∈ sectionCalls? .main next main ++ sectionCalls? .inverse behind inverse,
      Stands text (appendUnescaped (InvocationOf.text
        (some ⟨numberOf? next (sectionFill (codeFrom answers) (sectionBody? hints scope main)),
          numberOf? behind (sectionFill (codeFrom answers) (sectionBody? hints scope inverse)),
          ((sectionFill (codeFrom answers) (sectionBody? hints scope main)).map
            fun body => body.params.length).getD 0⟩)
        (InvocationOf.fill (codeFrom answers) call))) := by
  intro text ht
  have hstands (sections : SectionNumbers) (field : String) (hm : field ∈ sections.fields) :=
    (InvocationOf.stands_sections ha sections call hp hf field hm).trans
      (stands_appendUnescaped (InvocationOf.sound_fill ha hp hf _))
  rcases List.mem_append.mp ht with ht | ht
  · cases main with
    | none => cases ht
    | some program =>
      cases List.mem_singleton.mp ht
      exact (stands_fieldText "fn" (sound_programText _ _)).trans (hstands _ _ List.mem_cons_self)
  · cases inverse with
    | none => cases ht
    | some program =>
      cases List.mem_singleton.mp ht
      exact (stands_fieldText "inverse" (sound_programText _ _)).trans
        (hstands _ _ (List.mem_cons_of_mem _ List.mem_cons_self))

/-- What a partial wraps is called in its line. -/
theorem stands_partialTemplate (ha : AnswersSound (σ := Unit) (always answers)) (scope : Scope)
    {name : PartialNameOf Reference} {context : Option (ValueOf Reference)} {hash : List (String × ValueOf Reference)}
    (hn : name.Plain ∧ name.outline.fault = none) (hc : contextPlain context ∧ (contextOutline context).fault = none)
    (hh : hashPlain hash ∧ (hashOutline hash).fault = none) (fallback : Option (ProgramOf Statement)) (next : Nat) :
    ∀ text ∈ sectionCalls? .fallback next fallback,
      Stands text (appendUnescaped (partialText (name.fill (codeFrom answers))
        (context.map fun value => value.fill (codeFrom answers)) (hashFill (codeFrom answers) hash)
        (numberOf? next (sectionFill (codeFrom answers) (sectionBody? hints scope fallback))))) := by
  intro text ht
  cases fallback with
  | none => cases ht
  | some program =>
    cases List.mem_singleton.mp ht
    have hname := PartialNameOf.sound_fill ha hn.1 hn.2
    have hcontext := sound_fill_context ha hc.1 hc.2
    have hhash := sound_fill_hash ha hh.1 hh.2
    exact (stands_fallback hname hcontext hhash next).trans
      (stands_appendUnescaped (stands_partialText hname hcontext hhash _).1)

mutual

/-- The sections of a statement are placed in its line, whatever number comes next. -/
theorem placed_statement (ha : AnswersSound (σ := Unit) (always answers)) (outer : List SectionHead) :
    ∀ s : Statement, s.Plain → ∀ line ∈ s.line? hints (outer.map SectionHead.params), line.outline.fault = none →
    ∀ next, Placed hints (codeFrom answers) (s.sections outer) next
      [((line.fill (codeFrom answers)).written next).own] ((line.fill (codeFrom answers)).written next).functions
  | .content text, _, line, hm, _, next => by
    simp only [Statement.line?, chunkLine?] at hm
    split at hm
    · cases hm
    · cases hm
      exact .nothing _
  | .mustache call true, _, line, hm, _, next => by
    cases hm
    exact .nothing _
  | .mustache call false, _, line, hm, _, next => by
    cases hm
    exact .nothing _
  | .block call main inverse, ⟨hcp, hmp, hip⟩, line, hm, hf, next => by
    cases hm
    obtain ⟨hmain, hrest, _⟩ := Outline.of_fault_append hf
    obtain ⟨hinverse, hcall, _⟩ := Outline.of_fault_append hrest
    have first := placed_section ha .main outer main hmp hmain next
    have second := placed_section ha .inverse outer inverse hip hinverse
      (next + (sectionFunctions next (sectionFill (codeFrom answers)
        (sectionBody? hints (outer.map SectionHead.params) main))).length)
    exact (first.append second).within (stands_block hints ha _ (plain_invocation hints _ false call hcp) hcall
      main inverse next _)
  | .partialTemplate name context hash fallback, ⟨hnp, hcp, hhp, hfp⟩, line, hm, hf, next => by
    cases hm
    obtain ⟨hname, hrest, _⟩ := Outline.of_fault_append hf
    obtain ⟨hcontext, hrest, _⟩ := Outline.of_fault_append hrest
    obtain ⟨hhash, hfallback, _⟩ := Outline.of_fault_append hrest
    exact (placed_section ha .fallback outer fallback hfp hfallback next).within
      (stands_partialTemplate hints ha _ ⟨plain_name hints _ name hnp, hname⟩
        ⟨plain_context hints _ context hcp, hcontext⟩ ⟨plain_hash hints _ hash hhp, hhash⟩ fallback next)

/-- **The sections of statements are placed in their lines**, whatever number comes next. -/
theorem placed_body (ha : AnswersSound (σ := Unit) (always answers)) (outer : List SectionHead) :
    ∀ body : List Statement, statementsPlain body →
    (linesOutline (linesOf hints (outer.map SectionHead.params) body)).fault = none →
    ∀ next, Placed hints (codeFrom answers) (bodySections outer body) next
      (writtenLines next (linesFill (codeFrom answers) (linesOf hints (outer.map SectionHead.params) body))).own
      (writtenLines next
        (linesFill (codeFrom answers) (linesOf hints (outer.map SectionHead.params) body))).functions
  | [], _, _, _ => .nothing _
  | s :: body, hp, hf, next => by
    rw [linesOf] at hf ⊢
    have hline := placed_statement ha outer s hp.1
    cases hs : s.line? hints (outer.map SectionHead.params) with
    | none =>
      rw [hs] at hf
      rw [bodySections, Statement.sections_of_line? hs]
      exact placed_body ha outer body hp.2 hf next
    | some line =>
      rw [hs] at hf
      obtain ⟨hfirst, hrest, _⟩ := Outline.of_fault_append hf
      exact (hline line hs hfirst next).append (placed_body ha outer body hp.2 hrest _)

theorem placed_section (ha : AnswersSound (σ := Unit) (always answers)) (role : SectionRole)
    (outer : List SectionHead) : ∀ body : Option (ProgramOf Statement), programPlain body →
    (sectionOutline (sectionBody? hints (outer.map SectionHead.params) body)).fault = none →
    ∀ next, Placed hints (codeFrom answers) (sectionsFrom role outer body) next (sectionCalls? role next body)
      (sectionFunctions next
        (sectionFill (codeFrom answers) (sectionBody? hints (outer.map SectionHead.params) body)))
  | none, _, _, _ => .nothing _
  | some ⟨body, params⟩, hp, hf, next => by
    have inner := placed_body ha (⟨role, params⟩ :: outer) body hp hf (next + 1)
    have hsound := (sound_fill_lines ha (plain_linesOf hints (params :: outer.map SectionHead.params) body hp) hf
      (next + 1)).1
    exact inner.enclosed hsound

end

end Placed

end Calls

end Stache
