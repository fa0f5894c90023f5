import Stache.Proofs.Text.Mentions
import Stache.Spec.Code

/-!
# What the parts of a spec mention

The parts that a spec is written of, with what they mention outside their literals: the numbers of
programs, partials, and outer contexts.

* `Mentioned` -- what some code mentions, summed up;
* `Says`, `SaysBefore` -- a piece of code mentions this, whatever stands behind it, or whatever does that
  goes on with no letter;
* `SaysAll` -- the same for lists of pieces;
* `says_objectText` to `says_functionText` -- what everything mentions that a spec is made of.
-/

namespace Stache

open Text (Mention Tells TellsBefore isSilent mentions)

/-! ## 1. What is mentioned -/

/-- The number of a program that is mentioned. -/
def Text.Mention.number? : Mention → Option Nat
  | .program number => some number
  | _ => none

/-- What some code mentions, summed up. -/
structure Mentioned where
  /-- The numbers of programs, in order. -/
  programs : List Nat
  /-- Partials are mentioned. -/
  partials : Bool
  /-- Outer contexts are mentioned. -/
  outer : Bool
  deriving DecidableEq, Repr

namespace Mentioned

/-- Nothing is mentioned. -/
def nothing : Mentioned := ⟨[], false, false⟩

/-- What two pieces mention. -/
def both (a b : Mentioned) : Mentioned :=
  ⟨a.programs ++ b.programs, a.partials || b.partials, a.outer || b.outer⟩

instance : Append Mentioned := ⟨both⟩

/-- The sum of what is mentioned. -/
def of (told : List Mention) : Mentioned :=
  ⟨told.filterMap Mention.number?, told.contains .partialTemplate, told.contains .outer⟩

/-- A base mentions an outer context if it is one. -/
def ofBase (base : Base) : Mentioned :=
  ⟨[], false, base.isAncestor⟩

/-- Numbers of programs. -/
def ofPrograms (numbers : List Nat) : Mentioned :=
  ⟨numbers, false, false⟩

@[simp] theorem nothing_append (a : Mentioned) : nothing ++ a = a := by
  show both nothing a = a
  simp [both, nothing]

@[simp] theorem append_nothing (a : Mentioned) : a ++ nothing = a := by
  show both a nothing = a
  simp [both, nothing]

theorem append_assoc (a b c : Mentioned) : a ++ b ++ c = a ++ (b ++ c) := by
  show both (both a b) c = both a (both b c)
  simp [both, List.append_assoc, Bool.or_assoc]

theorem of_append (told more : List Mention) : of (told ++ more) = of told ++ of more := by
  show _ = both (of told) (of more)
  simp [both, of, List.filterMap_append]

theorem ofBase_append (base : Base) : ofBase base ++ ofBase base = ofBase base := by
  show both (ofBase base) (ofBase base) = ofBase base
  simp [both, ofBase]

end Mentioned

/-! ## 2. Pieces of code -/

/-- The piece mentions this, whatever stands behind it. -/
def Says (s : Mentioned) (code : String) : Prop :=
  ∃ told, Tells told code.toList ∧ .of told = s

/-- The piece mentions this, whatever stands behind it, unless it goes on with a letter. -/
def SaysBefore (s : Mentioned) (code : String) : Prop :=
  ∃ told, TellsBefore told code.toList ∧ .of told = s

/-- Fixed text that mentions nothing. -/
def SilentText (code : String) : Prop :=
  isSilent false code.toList = true

/-- Fixed text that mentions nothing and begins with no letter. -/
structure ClosingText (code : String) : Prop where
  silent : SilentText code
  front : ∃ c ∈ code.toList.head?, c.isAlpha = false

theorem SilentText.ofList {code : List Char} (h : isSilent false code = true) : SilentText (String.ofList code) := by
  rwa [SilentText, String.toList_ofList]

theorem ClosingText.ofList {c : Char} {code : List Char} (h : isSilent false (c :: code) = true)
    (hc : c.isAlpha = false) : ClosingText (String.ofList (c :: code)) :=
  ⟨.ofList h, c, by rw [String.toList_ofList]; rfl, hc⟩

variable {s t : Mentioned} {a b code : String}

theorem Says.before (h : Says s a) : SaysBefore s a := by
  obtain ⟨told, h, hs⟩ := h
  exact ⟨told, h.before, hs⟩

theorem SilentText.told (h : SilentText code) : Says .nothing code :=
  ⟨[], Text.tells_of_silent h, rfl⟩

theorem Says.append (h : Says s a) (h' : Says t b) : Says (s ++ t) (a ++ b) := by
  obtain ⟨told, h, rfl⟩ := h
  obtain ⟨more, h', rfl⟩ := h'
  exact ⟨told ++ more, String.toList_append ▸ h.append h', Mentioned.of_append told more⟩

theorem Says.appendBefore (h : Says s a) (h' : SaysBefore t b) : SaysBefore (s ++ t) (a ++ b) := by
  obtain ⟨told, h, rfl⟩ := h
  obtain ⟨more, h', rfl⟩ := h'
  exact ⟨told ++ more, String.toList_append ▸ h.appendBefore h', Mentioned.of_append told more⟩

/-- Silent text in front of a piece. -/
theorem SilentText.front (h : SilentText code) (h' : SaysBefore s a) : SaysBefore s (code ++ a) := by
  have := h.told.appendBefore h'
  rwa [Mentioned.nothing_append] at this

/-- Closing text behind a piece. -/
theorem SaysBefore.close (h : SaysBefore s a) (hc : ClosingText code) : Says s (a ++ code) := by
  obtain ⟨told, h, rfl⟩ := h
  obtain ⟨hsilent, c, hhead, hletter⟩ := hc
  have hcode := Text.tells_of_silent hsilent
  rw [List.eq_cons_of_mem_head? hhead] at hcode
  have hall := h.append hcode hletter
  rw [← List.eq_cons_of_mem_head? hhead, ← String.toList_append, List.append_nil] at hall
  exact ⟨told, hall, rfl⟩

/-- Silent text behind a piece that is closed. -/
theorem Says.text (h : Says s a) (hc : SilentText code) : Says s (a ++ code) := by
  have := h.append hc.told
  rwa [Mentioned.append_nothing] at this

/-- A piece by itself can be read. -/
theorem SaysBefore.reads (h : SaysBefore s code) : (Text.mentions? code.toList).isSome = true := by
  obtain ⟨told, h, _⟩ := h
  rw [h.mentions?_eq]
  rfl

/-- What a piece by itself mentions. -/
theorem SaysBefore.of_mentions (h : SaysBefore s code) : .of (mentions code) = s := by
  obtain ⟨told, h, rfl⟩ := h
  rw [h.mentions_eq]

/-- Each piece mentions its part. -/
inductive SaysAll : Mentioned → List String → Prop where
  | nil : SaysAll .nothing []
  | cons {s t : Mentioned} {text : String} {texts : List String} (first : SaysBefore s text)
    (rest : SaysAll t texts) : SaysAll (s ++ t) (text :: texts)

namespace SaysAll

variable {texts more : List String}

theorem one (h : SaysBefore s a) : SaysAll s [a] := by
  have := SaysAll.cons h .nil
  rwa [Mentioned.append_nothing] at this

theorem two (h : SaysBefore s a) (h' : SaysBefore t b) : SaysAll (s ++ t) [a, b] :=
  .cons h (.one h')

/-- A piece that mentions nothing, in front of others. -/
theorem consSilent (h : SaysBefore .nothing a) (hs : SaysAll s texts) : SaysAll s (a :: texts) := by
  have := SaysAll.cons h hs
  rwa [Mentioned.nothing_append] at this

theorem append (h : SaysAll s texts) (h' : SaysAll t more) : SaysAll (s ++ t) (texts ++ more) := by
  induction h with
  | nil => rwa [Mentioned.nothing_append]
  | cons first _ ih =>
    rw [Mentioned.append_assoc]
    exact .cons first ih

/-- The pieces with a separator between them. -/
theorem intercalate (h : SaysAll s texts) {separator : String} (hs : ClosingText separator) :
    SaysBefore s (separator.intercalate texts) := by
  induction h with
  | nil =>
    rw [String.intercalate_nil]
    exact (SilentText.ofList rfl).told.before
  | @cons s t text texts first rest ih =>
    cases rest with
    | nil =>
      rw [String.intercalate_singleton, Mentioned.append_nothing]
      exact first
    | cons second others =>
      rw [String.intercalate_cons_cons]
      exact (first.close hs).appendBefore ih

end SaysAll

/-! ## 3. What a spec is made of -/

variable {texts : List String}

theorem says_toString (n : Nat) : Says .nothing (toString n) :=
  ⟨[], Text.tells_toString n, rfl⟩

theorem says_quote (text : String) : Says .nothing (Text.quote text) :=
  ⟨[], Text.tells_quote text, rfl⟩

theorem says_objectText (h : SaysAll s texts) : Says s (objectText texts) := by
  have front : SilentText "\x7b" := .ofList rfl
  have comma : ClosingText "," := .ofList rfl rfl
  have back : ClosingText "\x7d" := .ofList rfl rfl
  exact (front.front (h.intercalate comma)).close back

theorem says_fieldText (key : String) (h : SaysBefore s a) : SaysBefore s (fieldText key a) := by
  have colon : SilentText ":" := .ofList rfl
  have := ((says_quote key).text colon).appendBefore h
  rwa [Mentioned.nothing_append] at this

/-- A call, whose function is written with the bracket behind it. -/
theorem says_applyText {function : String} (hf : Says s (function ++ "(")) (h : SaysAll t texts) :
    Says (s ++ t) (applyText function texts) := by
  have comma : ClosingText ", " := .ofList rfl rfl
  have back : ClosingText ")" := .ofList rfl rfl
  exact (hf.appendBefore (h.intercalate comma)).close back

/-- A call of a function that is fixed text. -/
theorem says_call {function : String} (hf : SilentText function) (h : SaysAll s texts) :
    Says s (applyText function texts) := by
  have bracket : SilentText "(" := .ofList rfl
  have := says_applyText (hf.told.text bracket) h
  rwa [Mentioned.nothing_append] at this

theorem says_listText (h : SaysAll s texts) : Says s ("[" ++ String.intercalate "," texts ++ "]") := by
  have front : SilentText "[" := .ofList rfl
  have comma : ClosingText "," := .ofList rfl rfl
  have back : ClosingText "]" := .ofList rfl rfl
  exact (front.front (h.intercalate comma)).close back

theorem says_base (base : Base) : Says (.ofBase base) base.text := by
  cases base with
  | ancestor level =>
    have mark : Says ⟨[], false, true⟩ "depths[" := by
      have front : "depths[".toList = Text.outerMark := String.toList_ofList
      exact ⟨[.outer], front ▸ Text.tells_outer, rfl⟩
    have back : SilentText "]" := .ofList rfl
    have := (mark.append (says_toString level)).text back
    rwa [Mentioned.append_nothing] at this
  | parameter level slot =>
    have front : SilentText "blockParams[" := .ofList rfl
    have between : SilentText "][" := .ofList rfl
    have back : SilentText "]" := .ofList rfl
    have := (((front.told.append (says_toString level)).text between).append (says_toString slot)).text back
    rwa [Mentioned.append_nothing, Mentioned.append_nothing] at this
  | context => exact (SilentText.ofList rfl).told
  | data => exact (SilentText.ofList rfl).told
  | held => exact (SilentText.ofList rfl).told
  | helpers => exact (SilentText.ofList rfl).told
  | partials => exact (SilentText.ofList rfl).told

theorem says_default (kind : LookupKind) (base : Base) (name : String) :
    Says (.ofBase base) (Reference.default (.symbol kind base name)) := by
  have front : SilentText "lookupProperty(" := .ofList rfl
  have comma : SilentText "," := .ofList rfl
  have back : SilentText ")" := .ofList rfl
  have := (((front.told.append (says_base base)).text comma).append (says_quote name)).text back
  rwa [Mentioned.nothing_append, Mentioned.append_nothing] at this

theorem says_chainText (h : Says s a) {links : List String} (hl : ∀ link ∈ links, Says .nothing link) :
    Says s (chainText a links) := by
  have front : SilentText "((stack1 = " := .ofList rfl
  have test : SilentText ") != null ? " := .ofList rfl
  have back : SilentText " : stack1)" := .ofList rfl
  induction links generalizing a with
  | nil => exact h
  | cons link links ih =>
    obtain ⟨hlink, hl⟩ := List.forall_mem_cons.mp hl
    have step : Says s ("((stack1 = " ++ a ++ ") != null ? " ++ link ++ " : stack1)") := by
      have := (((front.told.append h).text test).append hlink).text back
      rwa [Mentioned.nothing_append, Mentioned.append_nothing] at this
    exact ih step hl

/-- A chain of lookups: all but the first one are made on what was looked up before. -/
theorem says_chain (base : Base) {link : String} {links : List String} (hlink : Says (.ofBase base) link)
    (hl : ∀ link ∈ links, Says .nothing link) :
    Says (.ofBase base) (ChainOf.text ⟨base, link :: links⟩) := by
  have front : SilentText "(" := .ofList rfl
  have test : SilentText " != null ? " := .ofList rfl
  have other : SilentText " : " := .ofList rfl
  have back : SilentText ")" := .ofList rfl
  have hbase := says_base base
  have first := (((((front.told.append hbase).text test).append hlink).text other).append hbase).text back
  rw [Mentioned.nothing_append, Mentioned.ofBase_append, Mentioned.ofBase_append] at first
  exact says_chainText first hl

theorem says_programText (number params : Nat) :
    Says (.ofPrograms [number]) (programText number params) := by
  have mark : Says (.ofPrograms [number]) ("container.program(" ++ toString number ++ ",") := by
    have front : "container.program(".toList = Text.programMark := String.toList_ofList
    have comma : ",".toList = [','] := String.toList_ofList
    refine ⟨[.program number], ?_, rfl⟩
    rw [String.append_assoc, String.toList_append, String.toList_append, front, comma]
    exact Text.tells_program number
  have between : SilentText " data, " := .ofList rfl
  have back : SilentText ", blockParams, depths)" := .ofList (by decide +kernel)
  have comma : "," ++ " data, " = ", data, " := by decide +kernel
  have front := mark.text between
  rw [String.append_assoc, comma] at front
  have := (front.append (says_toString params)).text back
  rwa [Mentioned.append_nothing] at this

/-- The numbers of the sections that a call receives. -/
def numbersOf (sections : Option SectionNumbers) : List Nat :=
  (sections.map fun sections => sections.main.toList ++ sections.inverse.toList).getD []

theorem says_sectionText (params : Nat) (number : Option Nat) :
    Says (.ofPrograms number.toList) (sectionText params number) := by
  cases number with
  | none => exact (SilentText.ofList rfl).told
  | some number => exact says_programText number params

theorem says_sections (sections : Option SectionNumbers) :
    SaysAll (.ofPrograms (numbersOf sections)) ((sections.map (·.fields)).getD []) := by
  cases sections with
  | none => exact .nil
  | some sections =>
    exact .two (says_fieldText "fn" (says_sectionText _ sections.main).before)
      (says_fieldText "inverse" (says_sectionText _ sections.inverse).before)

theorem says_locationText (position : Position) : Says .nothing (locationText position) := by
  have start : SaysAll .nothing [fieldText "line" (toString position.line),
      fieldText "column" (toString (position.column - 1))] :=
    .consSilent (says_fieldText _ (says_toString _).before)
      (.one (says_fieldText _ (says_toString _).before))
  exact says_objectText (.one (says_fieldText "start" (says_objectText start).before))

theorem says_optionsText (name : String) (position : Position) (h : SaysBefore s a)
    (sections : Option SectionNumbers) :
    Says (s ++ .ofPrograms (numbersOf sections)) (optionsText name position a sections) := by
  have front : SaysAll s [fieldText "name" (Text.quote name), fieldText "hash" a] :=
    .consSilent (says_fieldText _ (says_quote name).before) (.one (says_fieldText _ h))
  have data : SilentText "data" := .ofList rfl
  have back : SaysAll .nothing [fieldText "data" "data", fieldText "loc" (locationText position)] :=
    .consSilent (says_fieldText _ data.told.before)
      (.one (says_fieldText _ (says_locationText position).before))
  have := says_objectText ((front.append (says_sections sections)).append back)
  rwa [Mentioned.append_nothing] at this

/-- The options of a call without named arguments. -/
theorem says_bareOptions (name : String) (position : Position) (sections : Option SectionNumbers) :
    Says (.ofPrograms (numbersOf sections)) (optionsText name position (objectText []) sections) := by
  have := says_optionsText name position (says_objectText .nil).before sections
  rwa [Mentioned.nothing_append] at this

theorem says_alias : SaysBefore .nothing "alias1" :=
  (SilentText.ofList rfl).told.before

/-- A call with arguments, of a helper or of a value. -/
theorem says_invokeHelper {params hash : Mentioned} {ps hs : List String} (name : String)
    (position : Position) (sections : Option SectionNumbers) (h : SaysBefore s a)
    (hp : SaysAll params ps) (hh : SaysAll hash hs) :
    Says (s ++ (params ++ hash) ++ .ofPrograms (numbersOf sections))
      (applyText "invokeHelper" [a, "alias1", "[" ++ String.intercalate "," ps ++ "]",
        optionsText name position (objectText hs) sections]) := by
  have function : SilentText "invokeHelper" := .ofList rfl
  have arguments := SaysAll.cons h (.consSilent says_alias (.two (says_listText hp).before
    (says_optionsText name position (says_objectText hh).before sections).before))
  rw [Mentioned.append_assoc, Mentioned.append_assoc]
  exact says_call function arguments

/-- The call of a helper that may be a member of the context. -/
theorem says_invokeAmbiguous {member helper : String} (name : String) (position : Position)
    (sections : Option SectionNumbers) (hm : Says .nothing member) (hh : Says .nothing helper) :
    Says (.ofPrograms (numbersOf sections))
      (applyText (if sections.isSome then "invokeBlock" else "invokeAmbiguous")
        [helper, ChainOf.text ⟨.context, [member]⟩, "alias1",
          optionsText name position (objectText []) sections]) := by
  have function : SilentText (if sections.isSome then "invokeBlock" else "invokeAmbiguous") := by
    split
    · exact .ofList rfl
    · exact .ofList rfl
  have chain : Says .nothing (ChainOf.text ⟨.context, [member]⟩) := says_chain .context hm nofun
  have arguments := SaysAll.consSilent hh.before (.consSilent chain.before (.consSilent says_alias
    (.one (says_bareOptions name position sections).before)))
  exact says_call function arguments

/-- A value without arguments. -/
theorem says_plainCall (name : String) (position : Position) (sections : Option SectionNumbers)
    (lookedUp : Bool) (h : SaysBefore s a) :
    SaysBefore (s ++ .ofPrograms (numbersOf sections))
      (if sections.isSome then
        applyText "container.hooks.blockHelperMissing.call" ["alias1", a,
          optionsText name position (objectText []) sections]
      else if lookedUp then applyText "container.lambda" [a, "depth0"] else a) := by
  cases sections with
  | some sections =>
    have function : SilentText "container.hooks.blockHelperMissing.call" := .ofList (by decide +kernel)
    have arguments := SaysAll.consSilent says_alias
      (.two h (says_bareOptions name position (some sections)).before)
    exact (says_call function arguments).before
  | none =>
    show SaysBefore (s ++ .nothing) _
    rw [Mentioned.append_nothing]
    cases lookedUp with
    | true =>
      have function : SilentText "container.lambda" := .ofList rfl
      have depth : SilentText "depth0" := .ofList rfl
      have := says_call function (.two h depth.told.before)
      rw [Mentioned.append_nothing] at this
      exact this.before
    | false => exact h

theorem says_appendText (h : SaysBefore s a) : Says s (appendText a) := by
  have front : SilentText "buffer += " := .ofList rfl
  have back : ClosingText ";" := .ofList rfl rfl
  exact (front.front h).close back

theorem says_appendUnescaped (h : SaysBefore s a) : Says s (appendUnescaped a) := by
  have front : SilentText "((stack1 = " := .ofList rfl
  have back : ClosingText ") != null ? stack1 : \"\")" := .ofList (by decide +kernel) rfl
  exact says_appendText ((front.front h).close back).before

/-- The mark of a partial, and what it is rendered with. -/
theorem says_partialText {target shown context hash : Mentioned} {t c n : String} {hs : List String}
    (fallback : Option Nat) (ht : SaysBefore target t) (hc : SaysBefore context c)
    (hn : SaysBefore shown n) (hh : SaysAll hash hs) :
    Says (⟨[], true, false⟩ ++ (target ++ (context ++ (shown ++ (hash ++ .ofPrograms fallback.toList)))))
      (applyText "container.invokePartial" [t, c,
        objectText ([fieldText "name" n, fieldText "hash" (objectText hs),
          fieldText "data" "data", fieldText "helpers" "helpers", fieldText "partials" "partials",
          fieldText "decorators" "container.decorators"] ++
          (fallback.map fun number => fieldText "fn" (programText number 0)).toList)]) := by
  have mark : Says ⟨[], true, false⟩ ("container.invokePartial" ++ "(") := by
    have front : ("container.invokePartial" ++ "(").toList = Text.partialMark := by decide +kernel
    exact ⟨[.partialTemplate], front ▸ Text.tells_partial, rfl⟩
  have fixed (key value : String) (hv : SilentText value) : SaysBefore .nothing (fieldText key value) :=
    says_fieldText key hv.told.before
  have rest : SaysAll .nothing [fieldText "data" "data", fieldText "helpers" "helpers",
      fieldText "partials" "partials", fieldText "decorators" "container.decorators"] :=
    .consSilent (fixed _ _ (.ofList rfl)) (.consSilent (fixed _ _ (.ofList rfl))
      (.consSilent (fixed _ _ (.ofList rfl)) (.one (fixed _ _ (.ofList (by decide +kernel))))))
  have number : SaysAll (.ofPrograms fallback.toList)
      (fallback.map fun number => fieldText "fn" (programText number 0)).toList := by
    cases fallback with
    | none => exact .nil
    | some number => exact .one (says_fieldText "fn" (says_programText number 0).before)
  have fields := (SaysAll.cons (says_fieldText "name" hn)
    (.cons (says_fieldText "hash" (says_objectText hh).before) rest)).append number
  rw [Mentioned.append_nothing, Mentioned.append_assoc] at fields
  have arguments := SaysAll.cons ht (.two hc (says_objectText fields).before)
  exact says_applyText mark arguments

/-- What every function begins with is evaluated piece by piece. -/
theorem says_prologue : Says .nothing prologue := by
  unfold prologue
  iterate 12 refine .text ?_ (.ofList (by decide +kernel))
  exact (SilentText.ofList (by decide +kernel)).told

theorem says_functionText (h : SaysAll s texts) : Says s (functionText texts) := by
  have line : ClosingText "\n  " := .ofList rfl rfl
  have head : SilentText signature := .ofList (by decide +kernel)
  have front : SilentText " \x7b\n" := .ofList rfl
  have back : ClosingText "\n  return buffer;\n\x7d" := .ofList (by decide +kernel) rfl
  have before : Says .nothing (signature ++ " \x7b\n" ++ prologue ++ "\n  ") :=
    ((head.told.text front).append says_prologue).text line.silent
  have := (before.appendBefore (h.intercalate line)).close back
  rwa [Mentioned.nothing_append] at this

end Stache
