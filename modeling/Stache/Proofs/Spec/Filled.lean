import Stache.Proofs.Spec.Reading

/-!
# Spec trees with their codes

If the answers do not depend on what was asked before, the codes of a spec tree can be put in reference by
reference.

* `Dialogue.Gives` -- what a dialogue ends with if a reference has the same answer whenever it is asked;
* `ValueOf.fill`, `LineOf.fill`, `BodyOf.fill` -- a tree with a code for each reference;
* `BodyOf.gives` -- that tree is what the dialogue of a spec tree ends with;
* `Program.spec_gives` -- so the code of a template is written from its spec tree;
* `ValueOf.sound_fill`, `sound_fill_lines` -- everything that is written of it is sound if the codes are.
-/

namespace Stache

open Text (Leads Sound)

/-! ## 1. Answers that stay -/

namespace Dialogue

variable {α β : Type} {answers : Reference → Option String}

/-- The code that a reference gets. -/
def codeFrom (answers : Reference → Option String) (reference : Reference) : String :=
  (answers reference).getD reference.default

/-- The dialogue ends with a result if it is told these answers. -/
inductive Gives (answers : Reference → Option String) : Dialogue α → α → Prop where
  | done (result : α) : Gives answers (.done result) result
  | ask (reference : Reference) {resume : Option String → Dialogue α} {result : α}
    (h : Gives answers (resume (answers reference)) result) :
    Gives answers (.ask reference resume) result

namespace Gives

theorem ofCode (reference : Reference) :
    Gives answers (Dialogue.code reference) (codeFrom answers reference) :=
  .ask reference (.done _)

theorem bind {d : Dialogue α} {f : α → Dialogue β} {result : α} {last : β} (h : Gives answers d result)
    (hf : Gives answers (f result) last) : Gives answers (d >>= f) last := by
  induction h with
  | done _ => exact hf
  | ask reference _ ih => exact .ask reference (ih hf)

theorem map {d : Dialogue α} {f : α → β} {result : α} (h : Gives answers d result) :
    Gives answers (d >>= fun value => pure (f value)) (f result) :=
  h.bind (.done _)

end Gives

/-- The policy that has the same answer for a reference whenever it is asked. -/
def always {σ : Type} (answers : Reference → Option String) (reference : Reference) (state : σ) :
    Option String × σ :=
  (answers reference, state)

/-- **A dialogue that is always told the same** ends with what the answers give. -/
theorem Gives.run_eq {σ : Type} {d : Dialogue α} {result : α} (h : Gives answers d result) (state : σ) :
    d.run (always answers) state = (.ok result, state) := by
  induction h with
  | done _ => rfl
  | ask reference _ ih => exact ih

/-- The codes of references that are asked about one after the other. -/
theorem codes_always {σ : Type} (references : List Reference) (state : σ) :
    codes (always answers) references state = references.map (codeFrom answers) := by
  induction references with
  | nil => rfl
  | cons reference references ih => exact congrArg (codeFrom answers reference :: ·) ih

/-- The codes of references by number. -/
def numbered (answers : Reference → Option String) (references : List Reference) : Codes :=
  fun number => (references.map (codeFrom answers)).getD number ""

theorem numbered_of_lt {references : List Reference} {number : Nat} (h : number < references.length) :
    numbered answers references number = codeFrom answers references[number] := by
  rw [numbered, List.getD_eq_getElem?_getD, List.getElem?_map, List.getElem?_eq_getElem h]
  rfl

/-- What is written for the codes is what the dialogue ends with. -/
theorem Writes.eq_of_gives {d : Dialogue α} {references : List Reference} {result : Codes → α}
    {last : α} (hw : Writes d references result) (hg : Gives answers d last) :
    result (numbered answers references) = last := by
  have hcodes (number : Nat) (code : String)
      (hc : (codes (always answers) references ())[number]? = some code) :
      numbered answers references number = code := by
    rw [codes_always] at hc
    rw [numbered, List.getD_eq_getElem?_getD, hc]
    rfl
  have hrun := hw.run_eq (always answers) () _ hcodes
  rw [hg.run_eq] at hrun
  exact (Except.ok.inj hrun).symm

end Dialogue

open Dialogue (Gives Writes codeFrom)

/-! ## 2. Trees with codes -/

section Fill

variable {ρ κ : Type} (code : ρ → κ)

mutual

/-- The value with its codes. -/
def ValueOf.fill : ValueOf ρ → ValueOf κ
  | .chain ⟨base, links⟩ => .chain ⟨base, links.map code⟩
  | .constant text => .constant text
  | .literal reference => .literal (code reference)
  | .call call => .call (InvocationOf.fill call)

def paramsFill : List (ValueOf ρ) → List (ValueOf κ)
  | [] => []
  | value :: values => value.fill :: paramsFill values

def hashFill : List (String × ValueOf ρ) → List (String × ValueOf κ)
  | [] => []
  | (key, value) :: hash => (key, value.fill) :: hashFill hash

/-- The call with its codes. -/
def InvocationOf.fill : InvocationOf ρ (ValueOf ρ) → InvocationOf κ (ValueOf κ)
  | ⟨name, position, .helper helper ⟨params, hash⟩⟩ =>
    ⟨name, position, .helper (code helper) ⟨paramsFill params, hashFill hash⟩⟩
  | ⟨name, position, .ambiguous member helper⟩ =>
    ⟨name, position, .ambiguous (code member) (code helper)⟩
  | ⟨name, position, .applied value ⟨params, hash⟩⟩ =>
    ⟨name, position, .applied value.fill ⟨paramsFill params, hashFill hash⟩⟩
  | ⟨name, position, .plain value lookedUp⟩ => ⟨name, position, .plain value.fill lookedUp⟩
  | ⟨name, position, .refused⟩ => ⟨name, position, .refused⟩

end

def PartialNameOf.fill : PartialNameOf ρ → PartialNameOf κ
  | .known name lookup => .known name (code lookup)
  | .computed call => .computed (InvocationOf.fill code call)

mutual

/-- The line with its codes. -/
def LineOf.fill : LineOf ρ → LineOf κ
  | .chunk reference => .chunk (code reference)
  | .escaped call => .escaped (InvocationOf.fill code call)
  | .unescaped call => .unescaped (InvocationOf.fill code call)
  | .block main inverse call =>
    .block (sectionFill main) (sectionFill inverse) (InvocationOf.fill code call)
  | .partialTemplate name context hash fallback =>
    .partialTemplate (name.fill code) (context.map fun value => value.fill code) (hashFill code hash)
      (sectionFill fallback)

def linesFill : List (LineOf ρ) → List (LineOf κ)
  | [] => []
  | line :: lines => line.fill :: linesFill lines

def sectionFill : Option (BodyOf (LineOf ρ)) → Option (BodyOf (LineOf κ))
  | none => none
  | some ⟨lines, params⟩ => some ⟨linesFill lines, params⟩

end

/-- The body with its codes. -/
def BodyOf.fill (body : BodyIn ρ) : BodyIn κ :=
  ⟨linesFill code body.lines, body.params⟩

theorem InvocationOf.position_fill :
    ∀ call : InvocationIn ρ, (InvocationOf.fill code call).position = call.position
  | ⟨_, _, .helper _ ⟨_, _⟩⟩ => rfl
  | ⟨_, _, .ambiguous _ _⟩ => rfl
  | ⟨_, _, .applied _ ⟨_, _⟩⟩ => rfl
  | ⟨_, _, .plain _ _⟩ => rfl
  | ⟨_, _, .refused⟩ => rfl

end Fill

/-! ## 3. What the dialogue of a tree ends with -/

section Gives

variable (answers : Reference → Option String)

theorem gives_askAll : ∀ references : List Reference,
    Gives answers (askAll references) (references.map (codeFrom answers))
  | [] => .done _
  | reference :: references => (Gives.ofCode reference).bind (gives_askAll references).map

mutual

/-- A value that is asked about becomes the value with its codes. -/
theorem ValueOf.gives : ∀ value : ValueOf Reference, value.outline.fault = none →
    Gives answers value.ask (value.fill (codeFrom answers))
  | .chain ⟨_, links⟩, _ => (gives_askAll answers links).map.map
  | .constant _, _ => .done _
  | .literal reference, _ => (Gives.ofCode reference).map
  | .call call, hf => (InvocationOf.gives call hf).map

theorem gives_params : ∀ values : List (ValueOf Reference), (paramsOutline values).fault = none →
    Gives answers (askParams values) (paramsFill (codeFrom answers) values)
  | [], _ => .done _
  | value :: values, hf => by
    obtain ⟨ha, hb, _⟩ := Outline.of_fault_append hf
    exact (value.gives ha).bind (gives_params values hb).map

theorem gives_hash : ∀ hash : List (String × ValueOf Reference), (hashOutline hash).fault = none →
    Gives answers (askHash hash) (hashFill (codeFrom answers) hash)
  | [], _ => .done _
  | (_, value) :: hash, hf => by
    obtain ⟨ha, hb, _⟩ := Outline.of_fault_append hf
    exact (value.gives ha).bind (gives_hash hash hb).map

theorem InvocationOf.gives : ∀ call : InvocationOf Reference (ValueOf Reference),
    (InvocationOf.outline call).fault = none →
    Gives answers (InvocationOf.ask call) (InvocationOf.fill (codeFrom answers) call)
  | ⟨_, _, .helper helper ⟨params, hash⟩⟩, hf => by
    obtain ⟨_, hb, _⟩ := Outline.of_fault_append hf
    obtain ⟨ha, hb, _⟩ := Outline.of_fault_append hb
    exact (Gives.ofCode helper).bind ((gives_params params ha).bind (gives_hash hash hb).map)
  | ⟨_, _, .ambiguous member helper⟩, _ => (Gives.ofCode member).bind (Gives.ofCode helper).map
  | ⟨_, _, .applied value ⟨params, hash⟩⟩, hf => by
    obtain ⟨hv, hb, _⟩ := Outline.of_fault_append hf
    obtain ⟨ha, hb, _⟩ := Outline.of_fault_append hb
    exact (value.gives hv).bind ((gives_params params ha).bind (gives_hash hash hb).map)
  | ⟨_, _, .plain value _⟩, hf => (value.gives hf).map
  | ⟨_, _, .refused⟩, hf => by cases hf

end

theorem PartialNameOf.gives : ∀ name : PartialNameOf Reference, name.outline.fault = none →
    Gives answers name.ask (name.fill (codeFrom answers))
  | .known _ lookup, _ => (Gives.ofCode lookup).map
  | .computed call, hf => (InvocationOf.gives answers call hf).map

theorem gives_context : ∀ context : Option (ValueOf Reference), (contextOutline context).fault = none →
    Gives answers (askContext? context) (context.map fun value => value.fill (codeFrom answers))
  | none, _ => .done _
  | some value, hf => (value.gives answers hf).map

mutual

theorem LineOf.gives : ∀ line : LineOf Reference, line.outline.fault = none →
    Gives answers line.ask (line.fill (codeFrom answers))
  | .chunk reference, _ => (Gives.ofCode reference).map
  | .escaped call, hf => (InvocationOf.gives answers call hf).map
  | .unescaped call, hf => (InvocationOf.gives answers call hf).map
  | .block main inverse call, hf => by
    obtain ⟨hm, hb, _⟩ := Outline.of_fault_append hf
    obtain ⟨hi, hc, _⟩ := Outline.of_fault_append hb
    exact (gives_section main hm).bind ((gives_section inverse hi).bind
      (InvocationOf.gives answers call hc).map)
  | .partialTemplate name context hash fallback, hf => by
    obtain ⟨hn, hb, _⟩ := Outline.of_fault_append hf
    obtain ⟨hc, hb, _⟩ := Outline.of_fault_append hb
    obtain ⟨hh, hs, _⟩ := Outline.of_fault_append hb
    exact (name.gives answers hn).bind ((gives_context answers context hc).bind
      ((gives_hash answers hash hh).bind (gives_section fallback hs).map))

theorem gives_lines : ∀ lines : List (LineOf Reference), (linesOutline lines).fault = none →
    Gives answers (askLines lines) (linesFill (codeFrom answers) lines)
  | [], _ => .done _
  | line :: lines, hf => by
    obtain ⟨ha, hb, _⟩ := Outline.of_fault_append hf
    exact (line.gives ha).bind (gives_lines lines hb).map

theorem gives_section : ∀ body : Option (BodyOf (LineOf Reference)),
    (sectionOutline body).fault = none →
    Gives answers (askBody? body) (sectionFill (codeFrom answers) body)
  | none, _ => .done _
  | some ⟨lines, _⟩, hf => (gives_lines lines hf).map

end

/-- **The dialogue of a spec tree** ends with the tree with its codes. -/
theorem BodyOf.gives (body : BodyIn Reference) (hf : (linesOutline body.lines).fault = none) :
    Gives answers body.ask (body.fill (codeFrom answers)) :=
  (gives_lines answers body.lines hf).map

/-- **The code of a template is written from its spec tree**, with a code for each reference. -/
theorem Program.spec_gives {hints : Hints} {source : String} {program : Program}
    (h : Program.parse source = .ok program) (hf : (compilationOutline hints source).fault = none) :
    Gives answers (compilation hints source)
      ((program.spec hints).fill (codeFrom answers)).specText := by
  rw [compilationOutline, h] at hf
  unfold compilation
  rw [h]
  exact ((program.spec hints).gives answers hf).map

end Gives

/-! ## 4. What is written of a tree with codes -/

section Sound

open Dialogue (always numbered)

variable {answers : Reference → Option String} (ha : AnswersSound (σ := Unit) (always answers))

include ha

theorem sound_codeFrom (reference : Reference) : Sound (codeFrom answers reference).toList := by
  unfold codeFrom
  cases h : answers reference with
  | none => exact sound_default reference
  | some text => exact ha reference () text h

theorem sound_numbered (references : List Reference) (number : Nat) :
    Sound (numbered answers references number).toList := by
  rw [numbered, List.getD_eq_getElem?_getD, List.getElem?_map]
  cases references[number]? with
  | none => exact Leads.nil []
  | some reference => exact sound_codeFrom ha reference

/-- What is written of a value with sound codes is sound. -/
theorem ValueOf.sound_fill {value : ValueOf Reference} (hp : value.Plain)
    (hf : value.outline.fault = none) : Sound (value.fill (codeFrom answers)).text.toList := by
  obtain ⟨v, hw, _, hd⟩ := value.written hp hf
  have hsound := hd.sound (sound_numbered ha value.outline.references)
  rwa [hw.eq_of_gives (value.gives answers hf)] at hsound

theorem sound_fill_params {values : List (ValueOf Reference)} (hp : paramsPlain values)
    (hf : (paramsOutline values).fault = none) :
    ∀ text ∈ paramTexts (paramsFill (codeFrom answers) values), Sound text.toList := by
  obtain ⟨v, hw, _, hd⟩ := written_params values hp hf
  have hsound := hd.sound (sound_numbered ha (paramsOutline values).references)
  rwa [hw.eq_of_gives (gives_params answers values hf)] at hsound

theorem sound_fill_hash {hash : List (String × ValueOf Reference)} (hp : hashPlain hash)
    (hf : (hashOutline hash).fault = none) :
    ∀ text ∈ hashTexts (hashFill (codeFrom answers) hash), Sound text.toList := by
  obtain ⟨v, hw, _, hd⟩ := written_hash hash hp hf
  have hsound := hd.sound (sound_numbered ha (hashOutline hash).references)
  rwa [hw.eq_of_gives (gives_hash answers hash hf)] at hsound

theorem InvocationOf.sound_fill {call : InvocationIn Reference} (hp : InvocationOf.Plain call)
    (hf : (InvocationOf.outline call).fault = none) (sections : Option SectionNumbers) :
    Sound (InvocationOf.text sections (InvocationOf.fill (codeFrom answers) call)).toList := by
  obtain ⟨c, hw, _, hd⟩ := InvocationOf.written call hp hf
  have hsound := (hd sections).sound (sound_numbered ha (InvocationOf.outline call).references)
  rwa [hw.eq_of_gives (InvocationOf.gives answers call hf)] at hsound

theorem PartialNameOf.sound_fill {name : PartialNameOf Reference} (hp : name.Plain)
    (hf : name.outline.fault = none) :
    Sound (name.fill (codeFrom answers)).texts.1.toList ∧
      Sound (name.fill (codeFrom answers)).texts.2.toList := by
  obtain ⟨n, hw, _, _, _, htarget, hshown, _⟩ := name.written hp hf
  have hcodes := sound_numbered ha name.outline.references
  have hsound := And.intro (htarget.sound hcodes) (hshown.sound hcodes)
  rwa [hw.eq_of_gives (name.gives answers hf)] at hsound

theorem sound_fill_context {context : Option (ValueOf Reference)} (hp : contextPlain context)
    (hf : (contextOutline context).fault = none) :
    Sound (((context.map fun value => value.fill (codeFrom answers)).map ValueOf.text).getD
      "depth0").toList := by
  obtain ⟨c, hw, _, hd⟩ := written_context context hp hf
  have hsound := hd.sound (sound_numbered ha (contextOutline context).references)
  rwa [hw.eq_of_gives (gives_context answers context hf)] at hsound

/-- What is written of lines with sound codes is sound, and so are the functions of the bodies inside. -/
theorem sound_fill_lines {lines : List (LineOf Reference)} (hp : linesPlain lines)
    (hf : (linesOutline lines).fault = none) (next : Nat) :
    (∀ text ∈ (writtenLines next (linesFill (codeFrom answers) lines)).own, Sound text.toList) ∧
      ∀ text ∈ (writtenLines next (linesFill (codeFrom answers) lines)).functions,
        Sound text.toList := by
  obtain ⟨l, hw, _, hd⟩ := written_lines lines hp hf
  obtain ⟨own, inner, hown, hinner, _⟩ := hd next
  have hcodes := sound_numbered ha (linesOutline lines).references
  have hsound := And.intro (hown.sound hcodes) (hinner.sound hcodes)
  rwa [hw.eq_of_gives (gives_lines answers lines hf)] at hsound

end Sound

end Stache
