import Stache.Proofs.Job.Account
import Stache.Proofs.Spec.Filled
import Stache.Proofs.Text.Tidy

/-!
# Literals and loads in the code of a settled template

The code of a settled template is compacted as a whole, and that changes literals too, those that hold the
paths of modules among them.

* `stands_codeOf` -- the code for a reference stands in the code of the template;
* `compact_loadText`, `compilation_loads` -- what compaction makes of a module load;
* `settled_literals` -- each literal and each load of a settled template, before and after compaction;
* `untidy_path_not_loaded` -- a file that was found and is not the one that is loaded.
-/

namespace Stache

open Dialogue (numbered codeFrom)
open Text (Leads Sound Stands StandsAlone)

/-! ## 1. Where the code for a reference stands -/

section Codes

variable {table : SymbolTable} {inline : String → Bool} {hints : Hints} {source raw : String}

theorem sound_codeOf {reference : Reference} {text : String}
    (h : table.codeOf inline reference = some text) : Sound text.toList := by
  cases reference with
  | symbol kind base name =>
    cases kind with
    | partialTemplate =>
      simp only [SymbolTable.codeOf] at h
      split at h
      · cases h
      · obtain ⟨path, _, rfl⟩ := Option.map_eq_some_iff.mp h
        exact sound_loadText path.storageForm
    | helper =>
      obtain ⟨path, _, rfl⟩ := Option.map_eq_some_iff.mp h
      exact sound_loadHelper path
    | context => cases h
    | data => cases h
  | literal value =>
    have ha : (answer {} inline (.literal value) table).1 = some text := h
    exact sound_answer {} inline ha
  | chunk content =>
    have ha : (answer {} inline (.chunk content) table).1 = some text := h
    exact sound_answer {} inline ha

/-- **The code for every reference that is asked about** stands in the code of the template, outside
    literals. -/
theorem stands_codeOf
    (h : ((compilation hints source).run (table.tell inline) ()).1 = .ok raw) {reference : Reference}
    (hm : reference ∈ (compilationOutline hints source).references) :
    Stands (codeFrom (table.codeOf inline) reference) raw := by
  obtain ⟨form, hholes, hleads, hfill⟩ :=
    compilation_written ((asks_compilation hints source).fault_eq_none h)
  have hcodes : (fun number => (Dialogue.codes (table.tell inline)
      (compilationOutline hints source).references ()).getD number "") =
        numbered (table.codeOf inline) (compilationOutline hints source).references := by
    funext number
    rw [numbered, ← Dialogue.codes_always _ ()]
    rfl
  rw [hfill, hcodes] at h
  cases h
  obtain ⟨number, hnumber, rfl⟩ := List.getElem_of_mem hm
  rw [← Dialogue.numbered_of_lt hnumber]
  exact hleads.split (fun number _ => sound_numbered (fun _ _ _ => sound_codeOf) _ number)
    (hholes.mem_iff.mpr (List.mem_range.mpr hnumber))

end Codes

/-! ## 2. What compaction makes of a load -/

/-- **Compaction makes of a load the load of the tidied request.** -/
theorem compact_loadText (request : String) :
    Text.compact (loadText request) = loadText (Text.tidy request) := by
  have front : Leads [] [')'] "require(".toList := .ofList rfl
  have literal : StandsAlone (Text.quote request).toList := by
    unfold Text.quote
    rw [String.toList_ofList]
    exact Text.standsAlone_quoted request.toList
  have hfront : Text.compact "require(" = "require(" := by decide
  have hback : Text.compact ")" = ")" := by decide
  rw [loadText, literal.compact_append front _, Text.compact_quote, hfront, hback]
  rfl

theorem standsAlone_loadText (request : String) : StandsAlone (loadText request).toList := by
  have front : Leads [] [')'] "require(".toList := .ofList rfl
  have inside : Leads [] [')'] ('r' :: ("equire(".toList ++ (Text.quote request).toList)) := by
    have := front.sound (Text.sound_quote request)
    rwa [String.toList_append] at this
  have hcode : (loadText request).toList =
      'r' :: ("equire(".toList ++ (Text.quote request).toList ++ [')']) := by
    rw [loadText, String.toList_append, String.toList_append]
    rfl
  rw [hcode]
  exact Text.standsAlone (by decide) (by decide) (by decide) inside

/-- **Each load of a template** stands in its code, and the load of the tidied request in the compacted
    code. -/
theorem compilation_loads {table : SymbolTable} {inline : String → Bool} {hints : Hints}
    {source raw : String} (h : ((compilation hints source).run (table.tell inline) ()).1 = .ok raw)
    {reference : Reference} (hm : reference ∈ (compilationOutline hints source).references) {path : Path}
    (hload : table.codeOf inline reference = some (loadPath path) ∨
      table.codeOf inline reference = some (loadHelper path)) :
    ∃ front back, raw = front ++ loadPath path ++ back ∧
      Text.compact raw =
        Text.compact front ++ loadText (Text.tidy path.storageForm) ++ Text.compact back := by
  have hstands := stands_codeOf h hm
  -- a helper is loaded inside the call that takes its default export
  have hload : Stands (loadPath path) raw := by
    obtain hload | hload := hload
    · rwa [codeFrom, hload] at hstands
    · rw [codeFrom, hload] at hstands
      have call : Leads [] [')'] "__default(".toList := .ofList rfl
      exact .trans ⟨"__default(", ")", _, call, rfl⟩ hstands
  obtain ⟨front, back, hsplit, hcompact⟩ := (standsAlone_loadText path.storageForm).compact hload
  exact ⟨front, back, hsplit, hcompact.trans (by rw [compact_loadText])⟩

namespace Job

/-! ## 3. A settled template -/

variable {plan : SearchPlan} {name : String} {suggest : String → List String}

/-- **The literals and loads of a settled template**, before and after compaction. Compaction takes every
    literal for itself: the literal of a text becomes the literal of the tidied text, which is the same
    exactly if the text is tidy. This goes for the requests of the modules that are loaded, too. -/
theorem settled_literals {source : String} {registry : Registry} {journal : Journal} {settled : Settled}
    {p : Progress} (hs : source ≠ "")
    (h : (ofTemplate plan name suggest).settle source registry journal = (.ok settled, p)) :
    let hints : Hints := ⟨plan.config.knownHelpersOnly, p.registry.known⟩
    let policy := settled.table.tell plan.config.loadsInline
    ∃ raw parts small, (compilation hints source).run policy () = (.ok raw, ()) ∧
      settled.code = Text.compact raw ∧ Text.Reading raw parts small ∧
      (∀ (i : Nat) (text : List Char), parts.literals[i]? = some (Text.escaped text) →
        small.literals[i]? = some (Text.escaped (Text.tidied text)) ∧
          (Text.tidied text = text ↔ Text.Tidy text)) ∧
      ∀ reference ∈ (compilation hints source).asked policy (), ∀ path,
        (policy reference ()).1 ∈ [some (loadPath path), some (loadHelper path)] →
        ∃ front back, raw = front ++ loadPath path ++ back ∧
          settled.code =
            Text.compact front ++ loadText (Text.tidy path.storageForm) ++ Text.compact back ∧
          (Text.tidy path.storageForm = path.storageForm ↔ Text.Tidy path.storageForm.toList) := by
  intro hints policy
  obtain ⟨_, raw, hcode, hrun, _⟩ := dialogue_of_settle hs h
  have hraw : ((compilation hints source).run policy ()).1 = .ok raw := congrArg Prod.fst hrun
  obtain ⟨parts, small, hreading⟩ := (compilation_sound (fun _ _ _ => sound_codeOf) hraw).reading
  refine ⟨raw, parts, small, hrun, hcode, hreading, fun i text hi => ⟨?_, Text.tidied_eq_self_iff⟩, ?_⟩
  · rw [hreading.literals, List.getElem?_map, hi, Option.map_some, Text.compacted_escaped]
  · intro reference hm path hload
    rw [(asks_compilation hints source).asked_eq] at hm
    rw [List.mem_cons, List.mem_singleton] at hload
    obtain ⟨front, back, hsplit, hcompact⟩ := compilation_loads hraw hm hload
    exact ⟨front, back, hsplit, hcode.trans hcompact, Text.tidy_eq_self_iff⟩

/-- A plan with which everything is found in a file whose name is not tidy. -/
def spaced : SearchPlan where
  resolver _ _ _ := .ok ⟨"a  b"⟩
  config := {}
  templateDir := ⟨"."⟩

/-- The template that names one partial settles if every probe finds a file, and the table knows the file
    that the search for the partial finds, and no other. -/
theorem settles_at {resolver : ModuleResolver} (steady : ∀ made, resolver made = resolver 0)
    (found : ∀ made base request, ∃ path, resolver made base request = .ok path) {path : Path}
    (hsearch : (SearchPlan.search (plain resolver) .partialTemplate "b" []).1 = some path) :
    ∃ settled p, (ofTemplate (plain resolver) "t" fun _ => []).settle "\x7b\x7b>b\x7d\x7d" {} [] =
        (.ok settled, p) ∧
      settled.table.path? .partialTemplate "b" = some path ∧
      ∀ kind n other, settled.table.path? kind n = some other → other = path := by
  obtain ⟨settled, p, h⟩ := settles_found found
  obtain ⟨ht, place, file, ha⟩ := accounts_of_settle h
  have hasked : (ofTemplate (plain resolver) "t" fun _ => []).entries "\x7b\x7b>b\x7d\x7d" p =
      [(.partialTemplate, "b")] := by
    rw [entries_ofTemplate, passOutline, if_neg (by decide), outline_namesPartial]
    rfl
  rw [hasked] at ha
  have hfile : file "b" = path :=
    Option.some.inj ((ha.found "b" List.mem_cons_self).unique steady ⟨[], hsearch⟩)
  refine ⟨settled, p, h, ?_, fun kind n other hother => ?_⟩
  · rw [← ht, SymbolTable.path?_eq_some_iff, ha.partials, if_pos List.mem_cons_self, hfile]
  · rw [← ht, SymbolTable.path?_eq_some_iff] at hother
    cases kind with
    | partialTemplate =>
      rw [ha.partials, Option.ite_none_right_eq_some, List.mem_singleton] at hother
      obtain ⟨⟨⟩, ⟨⟩⟩ := hother
      exact hfile
    | helper =>
      rw [ha.helpers, if_neg (by simp)] at hother
      cases hother
    | ambiguous =>
      rw [ha.ambiguous, if_neg (by simp)] at hother
      cases hother

/-- What its pass asks about. -/
theorem asked_namesPartial {σ : Type} (hints : Hints)
    (policy : Reference → σ → Option String × σ) (state : σ) :
    (compilation hints "\x7b\x7b>b\x7d\x7d").asked policy state =
      [.symbol .partialTemplate .partials "b"] := by
  rw [(asks_compilation _ _).asked_eq, outline_namesPartial]

theorem settles_spaced : ∃ settled p,
    (ofTemplate spaced "t" fun _ => []).settle "\x7b\x7b>b\x7d\x7d" {} [] = (.ok settled, p) ∧
      settled.table.path? .partialTemplate "b" = some ⟨"a  b"⟩ ∧
      ∀ kind n other, settled.table.path? kind n = some other → other = ⟨"a  b"⟩ :=
  settles_at (fun _ => rfl) (fun _ _ _ => ⟨_, rfl⟩) rfl

/-- There the code loads another file. -/
theorem settled_literals_spaced : ∃ settled p, "\x7b\x7b>b\x7d\x7d" ≠ "" ∧
    (ofTemplate spaced "t" fun _ => []).settle "\x7b\x7b>b\x7d\x7d" {} [] = (.ok settled, p) ∧
      ∃ front back, settled.code = front ++ "require(\"a b\")" ++ back := by
  have hs : "\x7b\x7b>b\x7d\x7d" ≠ "" := by decide
  obtain ⟨settled, p, h, hpath, _⟩ := settles_spaced
  obtain ⟨raw, _, _, _, _, _, _, hloads⟩ := settled_literals hs h
  have hasked : Reference.symbol .partialTemplate .partials "b" ∈
      (compilation ⟨spaced.config.knownHelpersOnly, p.registry.known⟩ "\x7b\x7b>b\x7d\x7d").asked
        (settled.table.tell spaced.config.loadsInline) () := by
    rw [asked_namesPartial]
    exact List.mem_singleton.mpr rfl
  have hload : (settled.table.tell spaced.config.loadsInline
      (.symbol .partialTemplate .partials "b") ()).1 = some (loadPath ⟨"a  b"⟩) := by
    show (settled.table.path? .partialTemplate "b").map loadPath = _
    rw [hpath]
    rfl
  obtain ⟨front, back, _, hcode, _⟩ := hloads _ hasked ⟨"a  b"⟩ (List.mem_cons.mpr (.inl hload))
  have htidy : loadText (Text.tidy (Path.storageForm ⟨"a  b"⟩)) = "require(\"a b\")" := by decide
  rw [htidy] at hcode
  exact ⟨settled, p, hs, h, _, _, hcode⟩

/-- The file with that name is never loaded: no two blanks stand side by side in compacted code. -/
theorem not_loads_spaced {source : String} {registry : Registry} {settled : Settled} {p : Progress}
    (hs : source ≠ "")
    (h : (ofTemplate plan name suggest).settle source registry [] = (.ok settled, p)) :
    ¬ (loadPath ⟨"a  b"⟩).toList <:+: settled.code.toList := by
  intro hload
  obtain ⟨_, raw, hcode, _⟩ := dialogue_of_settle hs h
  have hpairs : Text.NoPairs Text.isBlank settled.code.toList := by
    rw [hcode, Text.compact, String.toList_ofList]
    exact Text.noPairs_compacted raw.toList
  have hpair : [' ', ' '] <:+: (loadPath ⟨"a  b"⟩).toList :=
    ⟨"require(\"a".toList, "b\")".toList, by decide⟩
  have htwo : Text.NoPairs Text.isBlank [' ', ' '] := List.IsChain.infix hpairs (hpair.trans hload)
  exact (List.isChain_cons_cons.mp htwo).1 ⟨rfl, rfl⟩

/-- **The file that was found is not loaded**: no load of it is in the code. -/
theorem untidy_path_not_loaded : ∃ settled p,
    (ofTemplate spaced "t" fun _ => []).settle "\x7b\x7b>b\x7d\x7d" {} [] = (.ok settled, p) ∧
      settled.table.path? .partialTemplate "b" = some ⟨"a  b"⟩ ∧
      ¬ (loadPath ⟨"a  b"⟩).toList <:+: settled.code.toList := by
  obtain ⟨settled, p, h, hpath, _⟩ := settles_spaced
  exact ⟨settled, p, h, hpath, not_loads_spaced (by decide) h⟩

end Job

end Stache
