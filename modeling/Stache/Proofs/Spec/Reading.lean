import Stache.Proofs.Spec.Holes
import Stache.Proofs.Symbol.Chunk
import Stache.Proofs.Text.Compacted
import Stache.Symbol.Naming

/-!
# How the code of a template reads

Names, texts and paths are written into generated code as literals, so whatever they are, the code stays
sound.

* `sound_default`, `sound_answer` -- what is written for a reference is sound, replaced by a job or not;
* `compilation_sound` -- sound answers make sound code;
* `compilation_reading` -- how the code reads, and how it reads compacted.
-/

namespace Stache

open Text (Leads Sound)

/-! ## 1. Answers -/

theorem sound_default (reference : Reference) : Sound reference.default.toList := by
  cases reference with
  | symbol _ parent name =>
    have front : Leads [] [')'] "lookupProperty(".toList := .ofList (by decide +kernel)
    have comma : Sound ",".toList := sound_ofList rfl
    have back : Leads [')'] [] ")".toList := .ofList rfl
    have base := (front.sound (sound_baseText parent)).sound comma
    exact (base.sound (Text.sound_quote name)).text back
  | literal value => exact Text.sound_quote value
  | chunk text => exact Text.sound_quote text

theorem sound_loadText (request : String) : Sound (loadText request).toList := by
  have front : Leads [] [')'] "require(".toList := .ofList rfl
  have back : Leads [')'] [] ")".toList := .ofList rfl
  exact (front.sound (Text.sound_quote request)).text back

theorem sound_loadHelper (path : Path) : Sound (loadHelper path).toList := by
  have front : Leads [] [')'] "__default(".toList := .ofList rfl
  have back : Leads [')'] [] ")".toList := .ofList rfl
  exact (front.sound (sound_loadText path.storageForm)).text back

variable (registry : Registry) (inline : String → Bool)

theorem sound_chunkOperands (held : List Char) (runs : List (List Char)) :
    ∀ operand ∈ chunkOperands inline held runs, Sound operand.toList := by
  have hheld (held : List Char) : ∀ operand ∈ (if held = [] then [] else
      [Text.quote (String.ofList held)]), Sound operand.toList := by
    intro operand h
    split at h
    · cases h
    · cases List.mem_singleton.mp h
      exact Text.sound_quote _
  induction runs generalizing held with
  | nil => exact hheld held
  | cons run runs ih =>
    rw [chunkOperands]
    split
    · exact List.forall_mem_append.mpr
        ⟨hheld held, List.forall_mem_cons.mpr ⟨sound_loadText _, ih []⟩⟩
    · exact ih _

theorem sound_intercalate {separator : String} (hs : Sound separator.toList) {texts : List String}
    (h : ∀ text ∈ texts, Sound text.toList) : Sound (separator.intercalate texts).toList := by
  have empty (number : Nat) : Sound ((fun _ => "" : Codes) number).toList := rfl
  exact ((DraftedAll.ofSound h).intercalate hs).sound empty

theorem sound_answer {reference : Reference} {table : SymbolTable} {text : String}
    (h : (answer registry inline reference table).1 = some text) : Sound text.toList := by
  cases reference with
  | symbol kind parent name =>
    cases kind with
    | partialTemplate =>
      simp only [answer, answerSymbol, answerPartial] at h
      split at h
      · cases h
      · split at h
        · cases h
          exact sound_loadText _
        · cases h
    | helper =>
      simp only [answer, answerSymbol, answerHelper] at h
      split at h
      · cases h
        exact sound_loadHelper _
      · split at h
        · cases h
          exact sound_loadHelper _
        · cases h
    | context => cases h
    | data => cases h
  | literal value =>
    simp only [answer, inlineLiteral] at h
    split at h
    · cases h
      exact sound_loadText value
    · cases h
  | chunk content =>
    have plus : Sound " + ".toList := sound_ofList rfl
    simp only [answer, inlineChunk_eq_runs] at h
    split at h
    · cases h
      exact sound_intercalate plus (sound_chunkOperands inline [] _)
    · cases h

/-! ## 2. Codes -/

variable {σ : Type} {policy : Reference → σ → Option String × σ}

/-- All that the policy puts in place of references is sound. -/
def AnswersSound (policy : Reference → σ → Option String × σ) : Prop :=
  ∀ reference state text, (policy reference state).1 = some text → Sound text.toList

theorem AnswersSound.codes (h : AnswersSound policy) (references : List Reference) (state : σ) :
    ∀ code ∈ Dialogue.codes policy references state, Sound code.toList := by
  induction references generalizing state with
  | nil => nofun
  | cons reference references ih =>
    refine List.forall_mem_cons.mpr ⟨?_, ih _⟩
    cases ha : (policy reference state).1 with
    | none => exact sound_default reference
    | some text => exact h reference state text ha

variable {hints : Hints} {source code : String}

/-- **Sound answers make sound code.** -/
theorem compilation_sound (hp : AnswersSound policy) {state : σ}
    (h : ((compilation hints source).run policy state).1 = .ok code) : Sound code.toList := by
  obtain ⟨form, _, hleads, hfill⟩ := compilation_written ((asks_compilation hints source).fault_eq_none h)
  rw [hfill policy state] at h
  cases h
  refine hleads.fill fun number _ => ?_
  rw [List.getD_eq_getElem?_getD]
  cases hc : (Dialogue.codes policy _ state)[number]? with
  | none => exact Leads.nil []
  | some code => exact hp.codes _ _ code (List.mem_of_getElem? hc)

/-! ## 3. Readings -/

/-- The policy that leaves every reference as it is. -/
def leaveAll (_ : Reference) (state : σ) : Option String × σ :=
  (none, state)

/-- **The code of a template reads well**, whether all references are left as they are or a job answers,
    whatever is in its table and whatever is loaded in place of texts: literals are closed and hold nothing
    that has to be escaped, brackets outside of them are nested, and compaction keeps the literals and what
    stands between them. -/
theorem compilation_reading
    (h : ((compilation hints source).run leaveAll ()).1 = .ok code ∨
      ∃ registry inline table,
        ((compilation hints source).run (answer registry inline) table).1 = .ok code) :
    ∃ parts small, Text.Reading code parts small := by
  obtain h | ⟨registry, inline, table, h⟩ := h
  · exact (compilation_sound nofun h).reading
  · exact (compilation_sound (fun _ _ _ => sound_answer registry inline) h).reading

/-- The template that names one partial, which was found in a file with a quote in its name. -/
theorem compilation_reading_found : ∃ code,
    ((compilation ⟨false, ∅⟩ "\x7b\x7b>b\x7d\x7d").run (answer {} fun _ => false)
      (SymbolTable.markResolved {} .partialTemplate "b" ⟨"a\"b"⟩)).1 = .ok code ∧
    ∃ parts small, Text.Reading code parts small := by
  have hasks := asks_compilation ⟨false, ∅⟩ "\x7b\x7b>b\x7d\x7d"
  rw [outline_namesPartial] at hasks
  obtain ⟨code, hcode⟩ := hasks.run_eq (answer {} fun _ => false)
    (SymbolTable.markResolved {} .partialTemplate "b" ⟨"a\"b"⟩)
  exact ⟨code, hcode, compilation_reading (.inr ⟨{}, _, _, hcode⟩)⟩

end Stache
