import Stache.Proofs.Text.Scan
import Stache.Spec.Code

/-!
# Code with holes

Generated code in which the codes of the references are left open. A form is fixed text with numbered holes;
`Drafted` tells that a text, as it depends on the codes, is a form filled with them, that the form has just
these holes, and which brackets it leaves open.

* `Drafted.append`, `Drafted.frame`, `Drafted.drop` -- how forms are put together;
* `DraftedAll` -- the same for lists of texts, each of which is balanced;
* `drafted_objectText` to `drafted_functionText` -- the forms of everything that a spec is made of.
-/

namespace Stache

open Text (Leads Sound)

/-! ## 1. Forms -/

/-- A part of a form. -/
inductive FormPart where
  /-- Fixed text. -/
  | text (code : String)
  /-- The place of the code with a number. -/
  | hole (number : Nat)
  deriving DecidableEq, Repr

/-- Fixed text with numbered holes. -/
abbrev Form := List FormPart

/-- The codes by their numbers. -/
abbrev Codes := Nat → String

namespace Form

/-- The numbers of the holes, in the order of the text. -/
def holes : Form → List Nat
  | [] => []
  | .text _ :: form => holes form
  | .hole number :: form => number :: holes form

/-- The text of a form whose holes are filled. -/
def fill (codes : Codes) : Form → String
  | [] => ""
  | .text code :: form => code ++ fill codes form
  | .hole number :: form => codes number ++ fill codes form

/-- The form with other numbers. -/
def renumber (f : Nat → Nat) (form : Form) : Form :=
  form.map fun
    | .text code => .text code
    | .hole number => .hole (f number)

/-- The fixed text leads from the brackets that are open to those, and all holes are outside literals. -/
inductive Leads : List Char → List Char → Form → Prop where
  | nil (opened : List Char) : Leads opened opened []
  | text {before between after : List Char} {code : String} {form : Form}
    (h : Text.Leads before between code.toList) (rest : Leads between after form) :
    Leads before after (.text code :: form)
  | hole {before after : List Char} {form : Form} (number : Nat) (rest : Leads before after form) :
    Leads before after (.hole number :: form)

theorem holes_append (a b : Form) : holes (a ++ b) = holes a ++ holes b := by
  induction a with
  | nil => rfl
  | cons part a ih => cases part <;> simp [holes, ih]

theorem fill_append (codes : Codes) (a b : Form) : fill codes (a ++ b) = fill codes a ++ fill codes b := by
  induction a with
  | nil => simp [fill]
  | cons part a ih => cases part <;> simp [fill, ih, String.append_assoc]

theorem holes_renumber (f : Nat → Nat) (form : Form) : holes (renumber f form) = form.holes.map f := by
  induction form with
  | nil => rfl
  | cons part form ih => cases part <;> simpa [renumber, holes] using ih

theorem fill_renumber (f : Nat → Nat) (codes : Codes) (form : Form) :
    fill codes (renumber f form) = fill (fun number => codes (f number)) form := by
  induction form with
  | nil => rfl
  | cons part form ih => cases part <;> simpa [renumber, fill] using ih

namespace Leads

variable {before between after : List Char} {a b : Form}

theorem append (h : Leads before between a) (h' : Leads between after b) :
    Leads before after (a ++ b) := by
  induction h with
  | nil => exact h'
  | text h _ ih => exact .text h (ih h')
  | hole number _ ih => exact .hole number (ih h')

theorem frame (h : Leads before after a) (outer : List Char) :
    Leads (before ++ outer) (after ++ outer) a := by
  induction h with
  | nil opened => exact .nil _
  | text h _ ih => exact .text (h.frame outer) ih
  | hole number _ ih => exact .hole number ih

theorem renumber (h : Leads before after a) (f : Nat → Nat) : Leads before after (a.renumber f) := by
  induction h with
  | nil opened => exact .nil opened
  | text h _ ih => exact .text h ih
  | hole number _ ih => exact .hole (f number) ih

/-- **Sound codes in the holes** do not change what the form leads to. -/
theorem fill (h : Leads before after a) {codes : Codes}
    (hc : ∀ number ∈ a.holes, Sound (codes number).toList) :
    Text.Leads before after (Form.fill codes a).toList := by
  induction h with
  | nil opened => exact .nil opened
  | text h _ ih =>
    rw [Form.fill, String.toList_append]
    exact h.append (ih hc)
  | hole number _ ih =>
    obtain ⟨hn, hc⟩ := List.forall_mem_cons.mp hc
    rw [Form.fill, String.toList_append]
    exact (hn.leads _).append (ih hc)

end Leads

end Form

/-- **Every hole is outside literals**: what stands before it leads from outside literals to outside, so
    what fills it stands in the code. -/
theorem Form.Leads.split {before after : List Char} {form : Form} (h : form.Leads before after)
    {codes : Codes} (hc : ∀ number ∈ form.holes, Sound (codes number).toList) {number : Nat}
    (hn : number ∈ form.holes) : ∃ front back between, Text.Leads before between front.toList ∧
      form.fill codes = front ++ codes number ++ back := by
  induction h with
  | nil => cases hn
  | @text before middle after code form hcode _ ih =>
    obtain ⟨front, back, between, hfront, hfill⟩ := ih hc hn
    refine ⟨code ++ front, back, between, hcode.text hfront, ?_⟩
    rw [Form.fill, hfill]
    simp only [String.append_assoc]
  | @hole before after form other _ ih =>
    obtain ⟨hother, hc⟩ := List.forall_mem_cons.mp hc
    obtain rfl | hn := List.mem_cons.mp hn
    · exact ⟨"", Form.fill codes form, before, .nil before, by rw [Form.fill, String.empty_append]⟩
    · obtain ⟨front, back, between, hfront, hfill⟩ := ih hc hn
      refine ⟨codes other ++ front, back, between, (hother.leads before).text hfront, ?_⟩
      rw [Form.fill, hfill]
      simp only [String.append_assoc]

/-! ## 2. Drafts -/

/-- The codes from a number on. -/
def Codes.drop (codes : Codes) (n : Nat) : Codes :=
  fun number => codes (n + number)

/-- The text is a form with these holes, filled with the codes, which leads from the brackets that are open
    to those. -/
def Drafted (before after : List Char) (holes : List Nat) (text : Codes → String) : Prop :=
  ∃ form : Form, form.holes.Perm holes ∧ form.Leads before after ∧
    ∀ codes, text codes = form.fill codes

/-- Each text is a form of its own, which closes what it opens. -/
inductive DraftedAll : List Nat → (Codes → List String) → Prop where
  | nil : DraftedAll [] fun _ => []
  | cons {holes others : List Nat} {text : Codes → String} {texts : Codes → List String}
    (first : Drafted [] [] holes text) (rest : DraftedAll others texts) :
    DraftedAll (holes ++ others) fun codes => text codes :: texts codes

namespace Drafted

variable {before between after : List Char} {holes others : List Nat} {f g : Codes → String}

/-- Fixed text. -/
theorem ofLeads {code : String} (h : Leads before after code.toList) :
    Drafted before after [] fun _ => code :=
  ⟨[.text code], .nil, .text h (.nil _), fun _ => by simp [Form.fill]⟩

theorem ofSound {code : String} (h : Sound code.toList) : Drafted [] [] [] fun _ => code :=
  ofLeads h

/-- One hole. -/
theorem ofHole (number : Nat) : Drafted [] [] [number] fun codes => codes number :=
  ⟨[.hole number], .refl _, .hole number (.nil _), fun _ => by simp [Form.fill]⟩

theorem append (h : Drafted before between holes f) (h' : Drafted between after others g) :
    Drafted before after (holes ++ others) fun codes => f codes ++ g codes := by
  obtain ⟨form, hh, hl, hf⟩ := h
  obtain ⟨form', hh', hl', hf'⟩ := h'
  refine ⟨form ++ form', ?_, hl.append hl', fun codes => ?_⟩
  · rw [Form.holes_append]
    exact hh.append hh'
  · rw [Form.fill_append, ← hf, ← hf']

/-- Other brackets may be open around a form. -/
theorem frame (h : Drafted before after holes f) (outer : List Char) :
    Drafted (before ++ outer) (after ++ outer) holes f := by
  obtain ⟨form, hh, hl, hf⟩ := h
  exact ⟨form, hh, hl.frame outer, hf⟩

theorem within (h : Drafted [] [] holes f) (opened : List Char) : Drafted opened opened holes f :=
  h.frame opened

/-- A form that closes what it opens, behind another one. -/
theorem inner (h : Drafted before after holes f) (h' : Drafted [] [] others g) :
    Drafted before after (holes ++ others) fun codes => f codes ++ g codes :=
  h.append (h'.within after)

/-- Fixed text behind a form. -/
theorem text {code : String} (h : Drafted before between holes f)
    (hc : Leads between after code.toList) : Drafted before after holes fun codes => f codes ++ code := by
  have := h.append (ofLeads hc)
  rwa [List.append_nil] at this

theorem perm (h : Drafted before after holes f) (hp : holes.Perm others) :
    Drafted before after others f := by
  obtain ⟨form, hh, hl, hf⟩ := h
  exact ⟨form, hh.trans hp, hl, hf⟩

/-- A form for later codes. -/
theorem drop (h : Drafted before after holes f) (n : Nat) :
    Drafted before after (holes.map (n + ·)) fun codes => f (codes.drop n) := by
  obtain ⟨form, hh, hl, hf⟩ := h
  refine ⟨form.renumber (n + ·), ?_, hl.renumber _, fun codes => ?_⟩
  · rw [Form.holes_renumber]
    exact hh.map _
  · show f (codes.drop n) = _
    rw [hf, Form.fill_renumber]
    rfl

/-- **A form is sound** if all codes are. -/
theorem sound (h : Drafted [] [] holes f) {codes : Codes}
    (hc : ∀ number, Sound (codes number).toList) : Sound (f codes).toList := by
  obtain ⟨form, _, hleads, hf⟩ := h
  rw [hf]
  exact hleads.fill fun number _ => hc number

end Drafted

namespace DraftedAll

variable {holes others : List Nat} {texts more : Codes → List String}

theorem append (h : DraftedAll holes texts) (h' : DraftedAll others more) :
    DraftedAll (holes ++ others) fun codes => texts codes ++ more codes := by
  induction h with
  | nil => exact h'
  | cons first _ ih =>
    rw [List.append_assoc]
    exact .cons first ih

theorem drop (h : DraftedAll holes texts) (n : Nat) :
    DraftedAll (holes.map (n + ·)) fun codes => texts (codes.drop n) := by
  induction h with
  | nil => exact .nil
  | cons first _ ih =>
    rw [List.map_append]
    exact .cons (first.drop n) ih

theorem one {text : Codes → String} (h : Drafted [] [] holes text) :
    DraftedAll holes fun codes => [text codes] := by
  have := DraftedAll.cons h .nil
  rwa [List.append_nil] at this

theorem two {first second : List Nat} {f g : Codes → String} (h : Drafted [] [] first f)
    (h' : Drafted [] [] second g) :
    DraftedAll (first ++ second) fun codes => [f codes, g codes] :=
  .cons h (.one h')

/-- Fixed texts. -/
theorem ofSound {fixed : List String} (h : ∀ text ∈ fixed, Sound text.toList) :
    DraftedAll [] fun _ => fixed := by
  induction fixed with
  | nil => exact .nil
  | cons text fixed ih =>
    obtain ⟨ht, h⟩ := List.forall_mem_cons.mp h
    exact .cons (.ofSound ht) (ih h)

theorem sound (h : DraftedAll holes texts) {codes : Codes}
    (hc : ∀ number, Sound (codes number).toList) : ∀ text ∈ texts codes, Sound text.toList := by
  induction h with
  | nil => nofun
  | cons first _ ih => exact List.forall_mem_cons.mpr ⟨first.sound hc, ih⟩

/-- There are always as many. -/
theorem length_eq (h : DraftedAll holes texts) : ∃ n, ∀ codes, (texts codes).length = n := by
  induction h with
  | nil => exact ⟨0, fun _ => rfl⟩
  | cons _ _ ih =>
    obtain ⟨n, hn⟩ := ih
    exact ⟨n + 1, fun codes => congrArg Nat.succ (hn codes)⟩

/-- The texts with a separator between them. -/
theorem intercalate (h : DraftedAll holes texts) {separator : String}
    (hs : Sound separator.toList) :
    Drafted [] [] holes fun codes => separator.intercalate (texts codes) := by
  induction h with
  | nil =>
    simp only [String.intercalate_nil]
    exact .ofSound rfl
  | cons first rest ih =>
    cases rest with
    | nil =>
      simp only [String.intercalate_singleton, List.append_nil]
      exact first
    | cons second others =>
      simp only [String.intercalate_cons_cons]
      have := (first.append (.ofSound hs)).append ih
      rwa [List.append_nil] at this

end DraftedAll

/-! ## 3. What a spec is made of -/

section Parts

variable {holes others : List Nat} {f g : Codes → String} {texts : Codes → List String}

theorem sound_ofList {code : List Char} (h : Sound code) : Sound (String.ofList code).toList :=
  h.ofList

theorem drafted_objectText (h : DraftedAll holes texts) :
    Drafted [] [] holes fun codes => objectText (texts codes) := by
  have front : Leads [] ['\x7d'] "\x7b".toList := .ofList rfl
  have comma : Sound ",".toList := sound_ofList rfl
  have back : Leads ['\x7d'] [] "\x7d".toList := .ofList rfl
  exact ((Drafted.ofLeads front).inner (h.intercalate comma)).text back

theorem drafted_fieldText (key : String) (h : Drafted [] [] holes f) :
    Drafted [] [] holes fun codes => fieldText key (f codes) := by
  have colon : Sound ":".toList := sound_ofList rfl
  have front : Sound (Text.quote key ++ ":").toList := (Text.sound_quote key).sound colon
  exact (Drafted.ofSound front).inner h

theorem drafted_applyText {function : String} (hf : Sound function.toList)
    (h : DraftedAll holes texts) :
    Drafted [] [] holes fun codes => applyText function (texts codes) := by
  have front : Leads [] [')'] "(".toList := .ofList rfl
  have comma : Sound ", ".toList := sound_ofList rfl
  have back : Leads [')'] [] ")".toList := .ofList rfl
  have head : Leads [] [')'] (function ++ "(").toList := hf.text front
  exact ((Drafted.ofLeads head).inner (h.intercalate comma)).text back

theorem drafted_listText (h : DraftedAll holes texts) :
    Drafted [] [] holes fun codes => "[" ++ String.intercalate "," (texts codes) ++ "]" := by
  have front : Leads [] [']'] "[".toList := .ofList rfl
  have comma : Sound ",".toList := sound_ofList rfl
  have back : Leads [']'] [] "]".toList := .ofList rfl
  exact ((Drafted.ofLeads front).inner (h.intercalate comma)).text back

theorem drafted_chainText (h : Drafted [] [] holes f) (hl : DraftedAll others texts) :
    Drafted [] [] (holes ++ others) fun codes => chainText (f codes) (texts codes) := by
  have front : Leads [] [')', ')'] "((stack1 = ".toList := .ofList rfl
  have test : Leads [')', ')'] [')'] ") != null ? ".toList := .ofList rfl
  have back : Leads [')'] [] " : stack1)".toList := .ofList rfl
  induction hl generalizing holes f with
  | nil =>
    rw [List.append_nil]
    exact h
  | @cons second others g texts first _ ih =>
    have step : Drafted [] [] (holes ++ second) fun codes =>
        "((stack1 = " ++ f codes ++ ") != null ? " ++ g codes ++ " : stack1)" :=
      ((((Drafted.ofLeads front).inner h).text test).inner first).text back
    rw [← List.append_assoc]
    exact ih step

theorem sound_baseText (base : Base) : Sound base.text.toList := by
  cases base with
  | ancestor level =>
    have front : Leads [] [']'] "depths[".toList := .ofList rfl
    have back : Leads [']'] [] "]".toList := .ofList rfl
    exact (front.sound (Text.sound_toString level)).text back
  | parameter level slot =>
    have front : Leads [] [']'] "blockParams[".toList := .ofList rfl
    have between : Leads [']'] [']'] "][".toList := .ofList rfl
    have back : Leads [']'] [] "]".toList := .ofList rfl
    have first := front.sound (Text.sound_toString level)
    exact ((first.text between).sound (Text.sound_toString slot)).text back
  | _ => exact sound_ofList rfl

theorem drafted_chain (base : Base) (hl : DraftedAll holes texts) :
    Drafted [] [] holes fun codes => ChainOf.text ⟨base, texts codes⟩ := by
  have hb := sound_baseText base
  cases hl with
  | nil => exact .ofSound hb
  | @cons first others g texts link rest =>
    have front : Leads [] [')'] "(".toList := .ofList rfl
    have test : Leads [')'] [')'] " != null ? ".toList := .ofList rfl
    have other : Leads [')'] [')'] " : ".toList := .ofList rfl
    have back : Leads [')'] [] ")".toList := .ofList rfl
    have head : Leads [] [')'] ("(" ++ base.text ++ " != null ? ").toList := (front.sound hb).text test
    have step : Drafted [] [] first fun codes =>
        "(" ++ base.text ++ " != null ? " ++ g codes ++ " : " ++ base.text ++ ")" :=
      ((((Drafted.ofLeads head).inner link).text other).text (hb.leads _)).text back
    exact drafted_chainText step rest

theorem sound_programText (number params : Nat) : Sound (programText number params).toList := by
  have front : Leads [] [')'] "container.program(".toList := .ofList (by decide +kernel)
  have between : Leads [')'] [')'] ", data, ".toList := .ofList rfl
  have back : Leads [')'] [] ", blockParams, depths)".toList := .ofList (by decide +kernel)
  have first := front.sound (Text.sound_toString number)
  exact ((first.text between).sound (Text.sound_toString params)).text back

theorem sound_sectionText (params : Nat) (number : Option Nat) :
    Sound (sectionText params number).toList := by
  cases number with
  | none => exact sound_ofList rfl
  | some number => exact sound_programText number params

theorem draftedAll_sections (sections : Option SectionNumbers) :
    DraftedAll [] fun _ => (sections.map (·.fields)).getD [] := by
  cases sections with
  | none => exact .nil
  | some sections =>
    exact .two (drafted_fieldText "fn" (.ofSound (sound_sectionText _ _)))
      (drafted_fieldText "inverse" (.ofSound (sound_sectionText _ _)))

theorem drafted_locationText (position : Position) :
    Drafted [] [] [] fun _ => locationText position := by
  have start : DraftedAll [] fun _ => [fieldText "line" (toString position.line),
      fieldText "column" (toString (position.column - 1))] :=
    .two (drafted_fieldText _ (.ofSound (Text.sound_toString _)))
      (drafted_fieldText _ (.ofSound (Text.sound_toString _)))
  exact drafted_objectText (.one (drafted_fieldText "start" (drafted_objectText start)))

theorem drafted_optionsText (name : String) (position : Position) (h : Drafted [] [] holes f)
    (sections : Option SectionNumbers) :
    Drafted [] [] holes fun codes => optionsText name position (f codes) sections := by
  have front : DraftedAll ([] ++ holes) fun codes =>
      [fieldText "name" (Text.quote name), fieldText "hash" (f codes)] :=
    .two (drafted_fieldText _ (.ofSound (Text.sound_quote name))) (drafted_fieldText _ h)
  have data : Sound "data".toList := sound_ofList rfl
  have back : DraftedAll [] fun _ =>
      [fieldText "data" "data", fieldText "loc" (locationText position)] :=
    .two (drafted_fieldText _ (.ofSound data)) (drafted_fieldText _ (drafted_locationText position))
  have := drafted_objectText ((front.append (draftedAll_sections sections)).append back)
  rwa [List.append_nil, List.append_nil] at this

theorem sound_alias : Sound "alias1".toList := sound_ofList rfl

/-- A call with arguments, of a helper or of a value. -/
theorem drafted_invokeHelper {holes params hash : List Nat} {f : Codes → String}
    {ps hs : Codes → List String} (name : String) (position : Position)
    (sections : Option SectionNumbers) (h : Drafted [] [] holes f) (hp : DraftedAll params ps)
    (hh : DraftedAll hash hs) :
    Drafted [] [] (holes ++ (params ++ hash)) fun codes =>
      applyText "invokeHelper" [f codes, "alias1", "[" ++ String.intercalate "," (ps codes) ++ "]",
        optionsText name position (objectText (hs codes)) sections] := by
  have function : Sound "invokeHelper".toList := sound_ofList rfl
  have rest : DraftedAll ([] ++ (params ++ hash)) fun codes =>
      ["alias1", "[" ++ String.intercalate "," (ps codes) ++ "]",
        optionsText name position (objectText (hs codes)) sections] :=
    .cons (.ofSound sound_alias) (.two (drafted_listText hp)
      (drafted_optionsText name position (drafted_objectText hh) sections))
  exact drafted_applyText function (.cons h rest)

/-- The call of a helper that may be a member of the context, which is asked about first and written
    last. -/
theorem drafted_invokeAmbiguous (name : String) (position : Position)
    (sections : Option SectionNumbers) :
    Drafted [] [] [0, 1] fun codes =>
      applyText (if sections.isSome then "invokeBlock" else "invokeAmbiguous")
        [codes 1, ChainOf.text ⟨.context, [codes 0]⟩, "alias1",
          optionsText name position (objectText []) sections] := by
  have function : Sound (if sections.isSome then "invokeBlock" else "invokeAmbiguous").toList := by
    split
    · exact sound_ofList rfl
    · exact sound_ofList rfl
  have arguments : DraftedAll ([1] ++ ([0] ++ [])) fun codes =>
      [codes 1, ChainOf.text ⟨.context, [codes 0]⟩, "alias1",
        optionsText name position (objectText []) sections] :=
    .cons (.ofHole 1) (.cons (drafted_chain .context (.one (.ofHole 0)))
      (.two (.ofSound sound_alias)
        (drafted_optionsText name position (drafted_objectText .nil) sections)))
  exact (drafted_applyText function arguments).perm (.swap 0 1 [])

/-- A value without arguments. -/
theorem drafted_plainCall (name : String) (position : Position) (sections : Option SectionNumbers)
    (lookedUp : Bool) (h : Drafted [] [] holes f) :
    Drafted [] [] holes fun codes =>
      if sections.isSome then
        applyText "container.hooks.blockHelperMissing.call" ["alias1", f codes,
          optionsText name position (objectText []) sections]
      else if lookedUp then applyText "container.lambda" [f codes, "depth0"]
      else f codes := by
  split
  · have function : Sound "container.hooks.blockHelperMissing.call".toList := sound_ofList rfl
    have arguments : DraftedAll ([] ++ (holes ++ [])) fun codes =>
        ["alias1", f codes, optionsText name position (objectText []) sections] :=
      .cons (.ofSound sound_alias)
        (.two h (drafted_optionsText name position (drafted_objectText .nil) sections))
    rw [List.append_nil] at arguments
    exact drafted_applyText function arguments
  · split
    · have function : Sound "container.lambda".toList := sound_ofList rfl
      have depth : Sound "depth0".toList := sound_ofList rfl
      have arguments := DraftedAll.two h (.ofSound depth)
      rw [List.append_nil] at arguments
      exact drafted_applyText function arguments
    · exact h

/-- What every function begins with is evaluated piece by piece. -/
theorem sound_prologue : Sound prologue.toList := by
  unfold prologue Sound
  repeat rw [String.toList_append]
  iterate 12 apply Leads.append
  · exact @Leads.ofList [] [] _ (by decide +kernel)
  · exact @Leads.ofList [] ['\x7d'] _ (by decide +kernel)
  · exact @Leads.ofList ['\x7d'] ['\x7d'] _ (by decide +kernel)
  · exact @Leads.ofList ['\x7d'] [] _ (by decide +kernel)
  · exact @Leads.ofList [] ['\x7d'] _ (by decide +kernel)
  · exact @Leads.ofList ['\x7d'] ['\x7d'] _ (by decide +kernel)
  · exact @Leads.ofList ['\x7d'] [] _ (by decide +kernel)
  · exact @Leads.ofList [] ['\x7d'] _ (by decide +kernel)
  · exact @Leads.ofList ['\x7d'] ['\x7d'] _ (by decide +kernel)
  · exact @Leads.ofList ['\x7d'] [] _ (by decide +kernel)
  · exact @Leads.ofList [] ['\x7d'] _ (by decide +kernel)
  · exact @Leads.ofList ['\x7d'] ['\x7d'] _ (by decide +kernel)
  · exact @Leads.ofList ['\x7d'] [] _ (by decide +kernel)

theorem drafted_functionText (h : DraftedAll holes texts) :
    Drafted [] [] holes fun codes => functionText (texts codes) := by
  have hs : Sound "\n  ".toList := sound_ofList rfl
  have head : Leads [] [] signature.toList := .ofList (by decide +kernel)
  have front : Leads [] ['\x7d'] " \x7b\n".toList := .ofList rfl
  have body : Leads [] ['\x7d'] (signature ++ " \x7b\n" ++ prologue ++ "\n  ").toList :=
    ((head.text front).sound sound_prologue).sound hs
  have back : Leads ['\x7d'] [] "\n  return buffer;\n\x7d".toList := .ofList (by decide +kernel)
  exact ((Drafted.ofLeads body).inner (h.intercalate hs)).text back

theorem drafted_appendText (h : Drafted [] [] holes f) :
    Drafted [] [] holes fun codes => appendText (f codes) := by
  have front : Sound "buffer += ".toList := sound_ofList rfl
  have back : Leads [] [] ";".toList := .ofList rfl
  exact ((Drafted.ofSound front).inner h).text back

theorem drafted_appendUnescaped (h : Drafted [] [] holes f) :
    Drafted [] [] holes fun codes => appendUnescaped (f codes) := by
  have front : Leads [] [')', ')'] "((stack1 = ".toList := .ofList rfl
  have back : Leads [')', ')'] [] ") != null ? stack1 : \"\")".toList := .ofList (by decide +kernel)
  exact drafted_appendText (((Drafted.ofLeads front).inner h).text back)

/-- How a partial is rendered. Its name is written last of all if it is known, and else before the
    arguments. -/
theorem drafted_partialText {target shown context hash : List Nat} {t s c : Codes → String}
    {hs : Codes → List String} (fallback : Option Nat) (ht : Drafted [] [] target t)
    (hsh : Drafted [] [] shown s) (hc : Drafted [] [] context c) (hh : DraftedAll hash hs) :
    Drafted [] [] ((target ++ shown) ++ (context ++ hash)) fun codes =>
      applyText "container.invokePartial" [t codes, c codes,
        objectText ([fieldText "name" (s codes), fieldText "hash" (objectText (hs codes)),
          fieldText "data" "data", fieldText "helpers" "helpers", fieldText "partials" "partials",
          fieldText "decorators" "container.decorators"] ++
          (fallback.map fun number => fieldText "fn" (programText number 0)).toList)] := by
  have function : Sound "container.invokePartial".toList := sound_ofList rfl
  have plain (key value : String) (hv : Sound value.toList) :
      Drafted [] [] [] fun _ => fieldText key value := drafted_fieldText key (.ofSound hv)
  have names : DraftedAll (shown ++ (hash ++ [])) fun codes =>
      [fieldText "name" (s codes), fieldText "hash" (objectText (hs codes)),
        fieldText "data" "data", fieldText "helpers" "helpers", fieldText "partials" "partials",
        fieldText "decorators" "container.decorators"] :=
    .cons (drafted_fieldText _ hsh) (.cons (drafted_fieldText _ (drafted_objectText hh))
      (.cons (plain "data" "data" (sound_ofList rfl))
        (.cons (plain "helpers" "helpers" (sound_ofList rfl))
          (.two (plain "partials" "partials" (sound_ofList rfl))
            (plain "decorators" "container.decorators" (sound_ofList rfl))))))
  have number : DraftedAll [] fun _ =>
      (fallback.map fun number => fieldText "fn" (programText number 0)).toList := by
    cases fallback with
    | none => exact .nil
    | some number => exact .one (plain "fn" _ (sound_programText number 0))
  have arguments := DraftedAll.cons ht (.two hc (drafted_objectText (names.append number)))
  refine (drafted_applyText function arguments).perm ?_
  rw [List.append_nil, List.append_nil, List.append_assoc]
  refine .append_left target ?_
  rw [← List.append_assoc, ← List.append_assoc]
  exact .append_right hash List.perm_append_comm

theorem draftedAll_numberedFields (h : DraftedAll holes texts) (next : Nat) :
    DraftedAll holes fun codes => numberedFields next (texts codes) := by
  induction h generalizing next with
  | nil => exact .nil
  | cons first _ ih => exact .cons (drafted_fieldText _ first) (ih (next + 1))

theorem draftedAll_flagField (key : String) (needed : Bool) :
    DraftedAll [] fun _ => flagField key needed := by
  cases needed with
  | false => exact .nil
  | true => exact .one (drafted_fieldText key (.ofSound (sound_ofList rfl)))

theorem sound_compilerText :
    Sound ("[" ++ toString specRevision ++ "," ++ Text.quote runtimeVersions ++ "]").toList := by
  have front : Leads [] [']'] "[".toList := .ofList rfl
  have comma : Sound ",".toList := sound_ofList rfl
  have back : Leads [']'] [] "]".toList := .ofList rfl
  have first := (front.sound (Text.sound_toString specRevision)).sound comma
  exact (first.sound (Text.sound_quote runtimeVersions)).text back

/-- The functions of the sections are written before that of the template. -/
theorem drafted_spec {inner own : List Nat} {functions lines : Codes → List String} (needs : Needs)
    (hf : DraftedAll inner functions) (hl : DraftedAll own lines) :
    Drafted [] [] (inner ++ own) fun codes =>
      objectText (numberedFields 1 (functions codes) ++
        [fieldText "compiler"
          ("[" ++ toString specRevision ++ "," ++ Text.quote runtimeVersions ++ "]"),
          fieldText "main" (functionText (lines codes))] ++
        flagField "usePartial" needs.partials ++ [fieldText "useData" "true"] ++
        flagField "useDepths" needs.depths ++ flagField "useBlockParams" needs.blockParams) := by
  have main : DraftedAll ([] ++ own) fun codes =>
      [fieldText "compiler"
        ("[" ++ toString specRevision ++ "," ++ Text.quote runtimeVersions ++ "]"),
        fieldText "main" (functionText (lines codes))] :=
    .two (drafted_fieldText _ (.ofSound sound_compilerText))
      (drafted_fieldText _ (drafted_functionText hl))
  have data : DraftedAll [] fun _ => [fieldText "useData" "true"] :=
    .one (drafted_fieldText _ (.ofSound (sound_ofList rfl)))
  have := drafted_objectText ((((((draftedAll_numberedFields hf 1).append main).append
    (draftedAll_flagField "usePartial" needs.partials)).append data).append
    (draftedAll_flagField "useDepths" needs.depths)).append
    (draftedAll_flagField "useBlockParams" needs.blockParams))
  rwa [List.append_nil, List.append_nil, List.append_nil, List.append_nil] at this

end Parts

end Stache
