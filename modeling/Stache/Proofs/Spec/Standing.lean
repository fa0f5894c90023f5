import Stache.Proofs.Spec.Calls

/-!
# Where calls stand

Every call of a spec tree is written somewhere in its code, and not inside a literal.

* `stands_of_drafted`, `stands_of_mem` -- what stands in a hole of a form, or in one of several texts;
* `InvocationOf.stands`, `LineOf.stands` -- the calls inside a call, and inside a line;
* `BodyOf.stands_written` -- lines and functions stand in the code of the tree;
* `BodyOf.stands` -- **every call of a spec tree stands in the code of the tree**.
-/

namespace Stache

open Text (Sound Stands)

/-! ## 1. Holes and texts -/

variable {holes : List Nat} {piece : String}

/-- What fills a hole stands in the form. -/
theorem stands_of_drafted {f : Codes → String} (h : Drafted [] [] holes f) (h0 : 0 ∈ holes)
    (hp : Sound piece.toList) : Stands piece (f fun _ => piece) := by
  obtain ⟨form, hholes, hleads, hf⟩ := h
  have codes : ∀ number ∈ form.holes, Sound ((fun _ => piece : Codes) number).toList := fun _ _ => hp
  rw [hf]
  exact hleads.split codes (hholes.mem_iff.mpr h0)

/-- One of several texts stands in what is made of them. -/
theorem stands_of_mem (g : List String → String)
    (hg : ∀ {texts : Codes → List String}, DraftedAll [0] texts →
      Drafted [] [] holes fun codes => g (texts codes))
    (h0 : 0 ∈ holes) {texts : List String} (hs : ∀ text ∈ texts, Sound text.toList)
    (hm : piece ∈ texts) : Stands piece (g texts) := by
  obtain ⟨before, after, rfl⟩ := List.append_of_mem hm
  obtain ⟨hbefore, hafter⟩ := List.forall_mem_append.mp hs
  obtain ⟨hpiece, hafter⟩ := List.forall_mem_cons.mp hafter
  have texts : DraftedAll [0] fun codes => before ++ codes 0 :: after :=
    (DraftedAll.ofSound hbefore).append (.cons (.ofHole 0) (.ofSound hafter))
  exact stands_of_drafted (hg texts) h0 hpiece

theorem sound_empty (number : Nat) : Sound ((fun _ => "" : Codes) number).toList := rfl

theorem sound_cons {text : String} {texts : List String} (h : Sound text.toList)
    (hs : ∀ other ∈ texts, Sound other.toList) : ∀ other ∈ text :: texts, Sound other.toList :=
  List.forall_mem_cons.mpr ⟨h, hs⟩

theorem sound_one {text : String} (h : Sound text.toList) : ∀ other ∈ [text], Sound other.toList :=
  sound_cons h nofun

/-- A field stands in its object. -/
theorem stands_objectText {piece : String} {fields : List String} (hs : ∀ field ∈ fields, Sound field.toList)
    (hm : piece ∈ fields) : Stands piece (objectText fields) :=
  stands_of_mem objectText drafted_objectText (by decide) hs hm

/-- An argument stands in its call. -/
theorem stands_applyText {piece function : String} {arguments : List String} (hf : Sound function.toList)
    (hs : ∀ text ∈ arguments, Sound text.toList) (hm : piece ∈ arguments) :
    Stands piece (applyText function arguments) :=
  stands_of_mem (applyText function) (fun h => drafted_applyText hf h) (by decide) hs hm

/-- What a field holds stands in it. -/
theorem stands_fieldText (key : String) {code : String} (hs : Sound code.toList) : Stands code (fieldText key code) :=
  stands_of_drafted (drafted_fieldText key (.ofHole 0)) (by decide) hs

/-! ## 2. Values and calls -/

/-- The call is written in one of the texts, outside literals. -/
def WrittenIn (call : InvocationIn String) (texts : List String) : Prop :=
  ∃ text ∈ texts, ∃ sections, Stands (InvocationOf.text sections call) text

theorem WrittenIn.mono {call : InvocationIn String} {texts more : List String}
    (h : WrittenIn call texts) (hs : texts ⊆ more) : WrittenIn call more := by
  obtain ⟨text, hm, hw⟩ := h
  exact ⟨text, hs hm, hw⟩

/-- A call that is written in one of several texts is written in what is made of them. -/
theorem WrittenIn.one {call : InvocationIn String} {texts : List String} (h : WrittenIn call texts)
    {code : String} (hs : ∀ text ∈ texts, Stands text code) :
    ∃ sections, Stands (InvocationOf.text sections call) code := by
  obtain ⟨text, hm, sections, hw⟩ := h
  exact ⟨sections, hw.trans (hs text hm)⟩

section Calls

open Dialogue (always codeFrom)

variable {answers : Reference → Option String}

/-- The arguments of a call stand in the call. -/
theorem stands_invokeHelper (name : String) (position : Position) (sections : Option SectionNumbers)
    {f : String} {ps hs : List String} (hf : Sound f.toList) (hp : ∀ text ∈ ps, Sound text.toList)
    (hh : ∀ text ∈ hs, Sound text.toList) : ∀ text ∈ f :: (ps ++ hs),
      Stands text (applyText "invokeHelper" [f, "alias1", "[" ++ String.intercalate "," ps ++ "]",
        optionsText name position (objectText hs) sections]) := by
  let written (f : String) (ps hs : List String) := applyText "invokeHelper" [f, "alias1",
    "[" ++ String.intercalate "," ps ++ "]", optionsText name position (objectText hs) sections]
  intro text hm
  show Stands text (written f ps hs)
  rcases List.mem_cons.mp hm with rfl | hm
  · exact stands_of_drafted (drafted_invokeHelper name position sections (.ofHole 0) (.ofSound hp)
      (.ofSound hh)) (by decide) hf
  · rcases List.mem_append.mp hm with hm | hm
    · exact stands_of_mem (fun ps => written f ps hs) (fun h => drafted_invokeHelper name position
        sections (.ofSound hf) h (.ofSound hh)) (by decide) hp hm
    · exact stands_of_mem (fun hs => written f ps hs) (fun h => drafted_invokeHelper name position
        sections (.ofSound hf) (.ofSound hp) h) (by decide) hh hm

mutual

theorem ValueOf.stands (ha : AnswersSound (σ := Unit) (always answers)) :
    ∀ value : ValueOf Reference, value.Plain → value.outline.fault = none →
    ∀ call ∈ (value.fill (codeFrom answers)).calls,
      ∃ sections, Stands (InvocationOf.text sections call) (value.fill (codeFrom answers)).text
  | .chain _, _, _ => nofun
  | .constant _, _, _ => nofun
  | .literal _, _, _ => nofun
  | .call call, hp, hf => InvocationOf.stands ha call hp hf none

theorem stands_params (ha : AnswersSound (σ := Unit) (always answers)) :
    ∀ values : List (ValueOf Reference), paramsPlain values →
    (paramsOutline values).fault = none → ∀ call ∈ paramsCalls (paramsFill (codeFrom answers) values),
      WrittenIn call (paramTexts (paramsFill (codeFrom answers) values))
  | [], _, _ => nofun
  | value :: values, ⟨hp, hps⟩, hf => by
    obtain ⟨hfirst, hrest, _⟩ := Outline.of_fault_append hf
    intro call hm
    rcases List.mem_append.mp hm with hm | hm
    · exact ⟨_, List.mem_cons_self, value.stands ha hp hfirst call hm⟩
    · exact (stands_params ha values hps hrest call hm).mono (List.subset_cons_self _ _)

theorem stands_hash (ha : AnswersSound (σ := Unit) (always answers)) :
    ∀ hash : List (String × ValueOf Reference), hashPlain hash →
    (hashOutline hash).fault = none → ∀ call ∈ hashCalls (hashFill (codeFrom answers) hash),
      WrittenIn call (hashTexts (hashFill (codeFrom answers) hash))
  | [], _, _ => nofun
  | (key, value) :: hash, ⟨hp, hps⟩, hf => by
    obtain ⟨hfirst, hrest, _⟩ := Outline.of_fault_append hf
    intro call hm
    rcases List.mem_append.mp hm with hm | hm
    · obtain ⟨sections, hs⟩ := value.stands ha hp hfirst call hm
      exact ⟨_, List.mem_cons_self, sections, hs.trans (stands_fieldText key (value.sound_fill ha hp hfirst))⟩
    · exact (stands_hash ha hash hps hrest call hm).mono (List.subset_cons_self _ _)

/-- A call and those inside it stand in its code. -/
theorem InvocationOf.stands (ha : AnswersSound (σ := Unit) (always answers)) :
    ∀ call : InvocationOf Reference (ValueOf Reference),
    InvocationOf.Plain call → (InvocationOf.outline call).fault = none →
    ∀ sections, ∀ inner ∈ InvocationOf.calls (InvocationOf.fill (codeFrom answers) call),
      ∃ sections', Stands (InvocationOf.text sections' inner)
        (InvocationOf.text sections (InvocationOf.fill (codeFrom answers) call))
  | ⟨name, position, .helper helper ⟨params, hash⟩⟩, ⟨hp, hh⟩, hf => by
    obtain ⟨_, hb, _⟩ := Outline.of_fault_append hf
    obtain ⟨hfp, hfh, _⟩ := Outline.of_fault_append hb
    intro sections inner hm
    have hargs := stands_invokeHelper name position sections (sound_codeFrom ha helper)
      (sound_fill_params ha hp hfp) (sound_fill_hash ha hh hfh)
    rcases List.mem_cons.mp hm with rfl | hm
    · exact ⟨sections, .refl _⟩
    · rcases List.mem_append.mp hm with hm | hm
      · exact (stands_params ha params hp hfp inner hm).one fun text ht =>
          hargs text (List.mem_cons_of_mem _ (List.mem_append_left _ ht))
      · exact (stands_hash ha hash hh hfh inner hm).one fun text ht =>
          hargs text (List.mem_cons_of_mem _ (List.mem_append_right _ ht))
  | ⟨name, position, .ambiguous member helper⟩, _, _ => by
    intro sections inner hm
    cases List.mem_singleton.mp hm
    exact ⟨sections, .refl _⟩
  | ⟨name, position, .applied value ⟨params, hash⟩⟩, ⟨hv, hp, hh⟩, hf => by
    obtain ⟨hfv, hb, _⟩ := Outline.of_fault_append hf
    obtain ⟨hfp, hfh, _⟩ := Outline.of_fault_append hb
    intro sections inner hm
    have hargs := stands_invokeHelper name position sections (value.sound_fill ha hv hfv)
      (sound_fill_params ha hp hfp) (sound_fill_hash ha hh hfh)
    rcases List.mem_cons.mp hm with rfl | hm
    · exact ⟨sections, .refl _⟩
    · rcases List.mem_append.mp hm with hm | hm
      · obtain ⟨sections', hs⟩ := value.stands ha hv hfv inner hm
        exact ⟨sections', hs.trans (hargs _ List.mem_cons_self)⟩
      rcases List.mem_append.mp hm with hm | hm
      · exact (stands_params ha params hp hfp inner hm).one fun text ht =>
          hargs text (List.mem_cons_of_mem _ (List.mem_append_left _ ht))
      · exact (stands_hash ha hash hh hfh inner hm).one fun text ht =>
          hargs text (List.mem_cons_of_mem _ (List.mem_append_right _ ht))
  | ⟨name, position, .plain value lookedUp⟩, hp, hf => by
    intro sections inner hm
    rcases List.mem_cons.mp hm with rfl | hm
    · exact ⟨sections, .refl _⟩
    · obtain ⟨sections', hs⟩ := value.stands ha hp hf inner hm
      exact ⟨sections', hs.trans (stands_of_drafted
        (drafted_plainCall name position sections lookedUp (.ofHole 0)) (by decide)
        (value.sound_fill ha hp hf))⟩
  | ⟨_, _, .refused⟩, _, hf => by cases hf

end

/-! ## 3. Lines and bodies -/

/-- A call that stands in what is appended stands in the statement that appends it. -/
theorem stands_appendUnescaped {value : String} (hv : Sound value.toList) :
    Stands value (appendUnescaped value) :=
  stands_of_drafted (drafted_appendUnescaped (.ofHole 0)) (by decide) hv

theorem stands_escaped {value : String} (hv : Sound value.toList) :
    Stands value (appendText (applyText "container.escapeExpression" [value])) := by
  have function : Sound "container.escapeExpression".toList := sound_ofList rfl
  exact stands_of_drafted (drafted_appendText (drafted_applyText function (.one (.ofHole 0))))
    (by decide) hv

/-- The name, the context and the arguments of a partial stand where it is rendered. -/
theorem stands_partialText {name : PartialNameOf String} {context : Option (ValueOf String)}
    {hash : List (String × ValueOf String)}
    (hn : Sound name.texts.1.toList ∧ Sound name.texts.2.toList)
    (hc : Sound ((context.map ValueOf.text).getD "depth0").toList)
    (hh : ∀ text ∈ hashTexts hash, Sound text.toList) (fallback : Option Nat) :
    Sound (partialText name context hash fallback).toList ∧
      ∀ text ∈ name.texts.2 :: (context.map ValueOf.text).getD "depth0" :: hashTexts hash,
        Stands text (partialText name context hash fallback) := by
  let written (target shown context : String) (hash : List String) :=
    applyText "container.invokePartial" [target, context,
      objectText ([fieldText "name" shown, fieldText "hash" (objectText hash),
        fieldText "data" "data", fieldText "helpers" "helpers", fieldText "partials" "partials",
        fieldText "decorators" "container.decorators"] ++
        (fallback.map fun number => fieldText "fn" (programText number 0)).toList)]
  show Sound (written name.texts.1 name.texts.2 _ (hashTexts hash)).toList ∧
    ∀ text ∈ _, Stands text (written name.texts.1 name.texts.2 _ (hashTexts hash))
  refine ⟨(drafted_partialText fallback (.ofSound hn.1) (.ofSound hn.2) (.ofSound hc)
    (.ofSound hh)).sound sound_empty, fun text hm => ?_⟩
  rcases List.mem_cons.mp hm with rfl | hm
  · exact stands_of_drafted (drafted_partialText fallback (.ofSound hn.1) (.ofHole 0) (.ofSound hc)
      (.ofSound hh)) (by decide) hn.2
  rcases List.mem_cons.mp hm with rfl | hm
  · exact stands_of_drafted (drafted_partialText fallback (.ofSound hn.1) (.ofSound hn.2) (.ofHole 0)
      (.ofSound hh)) (by decide) hc
  · exact stands_of_mem (fun hash => written _ _ _ hash) (fun h => drafted_partialText fallback
      (.ofSound hn.1) (.ofSound hn.2) (.ofSound hc) h) (by decide) hh hm

theorem PartialNameOf.stands (ha : AnswersSound (σ := Unit) (always answers)) :
    ∀ name : PartialNameOf Reference, name.Plain → name.outline.fault = none →
    ∀ call ∈ (name.fill (codeFrom answers)).calls,
      ∃ sections, Stands (InvocationOf.text sections call) (name.fill (codeFrom answers)).texts.2
  | .known _ _, _, _ => nofun
  | .computed call, hp, hf => InvocationOf.stands ha call hp hf none

theorem stands_context (ha : AnswersSound (σ := Unit) (always answers)) :
    ∀ context : Option (ValueOf Reference), contextPlain context → (contextOutline context).fault = none →
    ∀ call ∈ contextCalls (context.map fun value => value.fill (codeFrom answers)),
      ∃ sections, Stands (InvocationOf.text sections call)
        (((context.map fun value => value.fill (codeFrom answers)).map ValueOf.text).getD "depth0")
  | none, _, _ => nofun
  | some value, hp, hf => value.stands ha hp hf

mutual

/-- The calls in a line are written in the line or in one of the functions inside it. -/
theorem LineOf.stands (ha : AnswersSound (σ := Unit) (always answers)) :
    ∀ line : LineOf Reference, line.Plain → line.outline.fault = none → ∀ next,
    ∀ call ∈ (line.fill (codeFrom answers)).calls,
      WrittenIn call (((line.fill (codeFrom answers)).written next).own ::
        ((line.fill (codeFrom answers)).written next).functions)
  | .chunk _, _, _ => nofun
  | .escaped call, hp, hf => by
    intro next inner hm
    obtain ⟨sections, hs⟩ := InvocationOf.stands ha call hp hf none inner hm
    exact ⟨_, List.mem_cons_self, sections,
      hs.trans (stands_escaped (InvocationOf.sound_fill ha hp hf none))⟩
  | .unescaped call, hp, hf => by
    intro next inner hm
    obtain ⟨sections, hs⟩ := InvocationOf.stands ha call hp hf none inner hm
    exact ⟨_, List.mem_cons_self, sections,
      hs.trans (stands_appendUnescaped (InvocationOf.sound_fill ha hp hf none))⟩
  | .block main inverse call, ⟨hm, hi, hc⟩, hf => by
    obtain ⟨hfm, hb, _⟩ := Outline.of_fault_append hf
    obtain ⟨hfi, hfc, _⟩ := Outline.of_fault_append hb
    intro next inner hmem
    rcases List.mem_append.mp hmem with hmem | hmem
    · obtain ⟨sections, hs⟩ := InvocationOf.stands ha call hc hfc _ inner hmem
      exact ⟨_, List.mem_cons_self, sections,
        hs.trans (stands_appendUnescaped (InvocationOf.sound_fill ha hc hfc _))⟩
    · rcases List.mem_append.mp hmem with hmem | hmem
      · exact (stands_section ha main hm hfm next inner hmem).mono
          (List.Subset.trans (List.subset_append_left _ _) (List.subset_cons_self _ _))
      · exact (stands_section ha inverse hi hfi _ inner hmem).mono
          (List.Subset.trans (List.subset_append_right _ _) (List.subset_cons_self _ _))
  | .partialTemplate name context hash fallback, ⟨hn, hc, hh, hb⟩, hf => by
    obtain ⟨hfn, hfb, _⟩ := Outline.of_fault_append hf
    obtain ⟨hfc, hfb, _⟩ := Outline.of_fault_append hfb
    obtain ⟨hfh, hfb, _⟩ := Outline.of_fault_append hfb
    intro next inner hm
    obtain ⟨hsound, hstands⟩ := stands_partialText (name.sound_fill ha hn hfn)
      (sound_fill_context ha hc hfc) (sound_fill_hash ha hh hfh)
      (numberOf? next (sectionFill (codeFrom answers) fallback))
    have happended := stands_appendUnescaped hsound
    rcases List.mem_append.mp hm with hm | hm
    · obtain ⟨sections, hs⟩ := name.stands ha hn hfn inner hm
      exact ⟨_, List.mem_cons_self, sections,
        (hs.trans (hstands _ List.mem_cons_self)).trans happended⟩
    rcases List.mem_append.mp hm with hm | hm
    · obtain ⟨sections, hs⟩ := stands_context ha context hc hfc inner hm
      exact ⟨_, List.mem_cons_self, sections,
        (hs.trans (hstands _ (List.mem_cons_of_mem _ List.mem_cons_self))).trans happended⟩
    rcases List.mem_append.mp hm with hm | hm
    · obtain ⟨text, ht, sections, hs⟩ := stands_hash ha hash hh hfh inner hm
      have hstands := hstands text (List.mem_cons_of_mem _ (List.mem_cons_of_mem _ ht))
      exact ⟨_, List.mem_cons_self, sections, (hs.trans hstands).trans happended⟩
    · exact (stands_section ha fallback hb hfb next inner hm).mono (List.subset_cons_self _ _)

theorem stands_lines (ha : AnswersSound (σ := Unit) (always answers)) :
    ∀ lines : List (LineOf Reference), linesPlain lines → (linesOutline lines).fault = none → ∀ next,
    ∀ call ∈ linesCalls (linesFill (codeFrom answers) lines),
      WrittenIn call ((writtenLines next (linesFill (codeFrom answers) lines)).own ++
        (writtenLines next (linesFill (codeFrom answers) lines)).functions)
  | [], _, _ => nofun
  | line :: lines, ⟨hp, hps⟩, hf => by
    obtain ⟨hfirst, hrest, _⟩ := Outline.of_fault_append hf
    intro next call hm
    let first := (line.fill (codeFrom answers)).written next
    let others := writtenLines (next + first.functions.length) (linesFill (codeFrom answers) lines)
    show WrittenIn call ((first.own :: others.own) ++ (first.functions ++ others.functions))
    rcases List.mem_append.mp hm with hm | hm
    · refine (line.stands ha hp hfirst next call hm).mono (List.cons_subset.mpr ⟨?_, ?_⟩)
      · exact List.mem_append_left _ List.mem_cons_self
      · exact List.subset_append_of_subset_right _ (List.subset_append_left _ _)
    · refine (stands_lines ha lines hps hrest (next + first.functions.length) call hm).mono
        (List.append_subset.mpr ⟨?_, ?_⟩)
      · exact List.subset_append_of_subset_left _ (List.subset_cons_self _ _)
      · exact List.subset_append_of_subset_right _ (List.subset_append_right _ _)

theorem stands_section (ha : AnswersSound (σ := Unit) (always answers)) :
    ∀ body : Option (BodyOf (LineOf Reference)), sectionPlain body →
    (sectionOutline body).fault = none → ∀ next,
    ∀ call ∈ sectionCalls (sectionFill (codeFrom answers) body),
      WrittenIn call (sectionFunctions next (sectionFill (codeFrom answers) body))
  | none, _, _ => nofun
  | some ⟨lines, params⟩, hp, hf => by
    intro next call hm
    obtain ⟨hown, _⟩ := sound_fill_lines ha hp hf (next + 1)
    obtain ⟨text, ht, sections, hs⟩ := stands_lines ha lines hp hf (next + 1) call hm
    rcases List.mem_append.mp ht with ht | ht
    · exact ⟨_, List.mem_cons_self, sections,
        hs.trans (stands_of_mem functionText drafted_functionText (by decide) hown ht)⟩
    · exact ⟨text, List.mem_cons_of_mem _ ht, sections, hs⟩

end

/-- Each line of a spec tree and each function of a body inside it stand in its code. -/
theorem BodyOf.stands_written (ha : AnswersSound (σ := Unit) (always answers)) {body : BodyIn Reference}
    (hp : linesPlain body.lines) (hf : (linesOutline body.lines).fault = none) :
    ∀ text ∈ (writtenLines 1 (linesFill (codeFrom answers) body.lines)).own ++
        (writtenLines 1 (linesFill (codeFrom answers) body.lines)).functions,
      Stands text (body.fill (codeFrom answers)).specText := by
  intro text ht
  let needs := linesNeeds (body.fill (codeFrom answers)).lines
  let spec (functions lines : List String) := objectText (numberedFields 1 functions ++
    [fieldText "compiler" ("[" ++ toString specRevision ++ "," ++ Text.quote runtimeVersions ++ "]"),
      fieldText "main" (functionText lines)] ++
    flagField "usePartial" needs.partials ++ [fieldText "useData" "true"] ++
    flagField "useDepths" needs.depths ++ flagField "useBlockParams" needs.blockParams)
  let written := writtenLines 1 (linesFill (codeFrom answers) body.lines)
  show Stands text (spec written.functions written.own)
  obtain ⟨hown, hfunctions⟩ := sound_fill_lines ha hp hf 1
  rcases List.mem_append.mp ht with ht | ht
  · exact stands_of_mem (fun lines => spec written.functions lines)
      (fun h => drafted_spec needs (.ofSound hfunctions) h) (by decide) hown ht
  · exact stands_of_mem (fun functions => spec functions written.own)
      (fun h => drafted_spec needs h (.ofSound hown)) (by decide) hfunctions ht

/-- **Every call of a spec tree stands in its code**, outside literals. -/
theorem BodyOf.stands (ha : AnswersSound (σ := Unit) (always answers))
    {body : BodyIn Reference} (hp : linesPlain body.lines) (hf : (linesOutline body.lines).fault = none) :
    ∀ call ∈ (body.fill (codeFrom answers)).calls,
      ∃ sections, Stands (InvocationOf.text sections call) (body.fill (codeFrom answers)).specText := by
  intro call hm
  exact (stands_lines ha body.lines hp hf 1 call hm).one (BodyOf.stands_written ha hp hf)

end Calls

end Stache
