import Mathlib.Data.List.Forall2
import Stache.Proofs.Job.Again
import Stache.Proofs.Job.Literals
import Stache.Proofs.Spec.Standing

/-!
# Calls of helpers that were found

Wherever a template calls a helper that its table has found, the code calls the module of the helper
directly, and in no other way: whatever is found is known before the last pass.

* `directCall`, `compact_directCall` -- how a direct call begins, and what compaction makes of it;
* `known_of_found` -- a helper that the table of a settled template has found is known;
* `spec_of_settle` -- the code of a settled template is written from its spec tree;
* `found_helpers_called` -- **every call of a helper that was found is a direct call**;
* `direct_call_elsewhere` -- the module that is called is not always the one that was found.
-/

namespace Stache

open Dialogue (always codeFrom)
open Text (Leads Stands StandsAlone)

/-! ## 1. Direct calls -/

/-- How a call begins that takes the helper from the module with a request. -/
def directCall (request : String) : String :=
  "invokeHelper(__default(" ++ loadText request ++ "), alias1"

/-- The call of a helper that is loaded is a direct call. -/
theorem text_loadHelper (sections : Option SectionNumbers) (name : String) (position : Position)
    (path : Path) (arguments : ArgumentsOf (ValueOf String)) : ∃ rest,
    InvocationOf.text sections ⟨name, position, .helper (loadHelper path) arguments⟩ =
      directCall path.storageForm ++ rest := by
  have front : "invokeHelper(__default(" = "invokeHelper" ++ "(" ++ "__default(" := by decide +kernel
  have back : "), alias1" = ")" ++ ", " ++ "alias1" := by decide +kernel
  obtain ⟨params, hash⟩ := arguments
  refine ⟨", " ++ ("[" ++ String.intercalate "," (paramTexts params) ++ "]" ++ ", " ++
    optionsText name position (objectText (hashTexts hash)) sections) ++ ")", ?_⟩
  unfold directCall
  simp only [InvocationOf.text, applyText, String.intercalate_cons_cons, String.intercalate_singleton,
    front, back, loadHelper, loadPath, String.append_assoc]

theorem standsAlone_directCall (request : String) : StandsAlone (directCall request).toList := by
  have hfirst : "invokeHelper(__default(".toList = 'i' :: "nvokeHelper(__default(".toList := by
    decide +kernel
  have hlast : "), alias1".toList = "), alias".toList ++ ['1'] := by decide +kernel
  have front : Leads [] [')', ')'] "invokeHelper(__default(".toList := .ofList rfl
  have back : Leads [')', ')'] [')'] "), alias".toList := .ofList rfl
  have inside := (front.sound (sound_loadText request)).append back
  simp only [String.toList_append, hfirst, List.cons_append] at inside
  have hcode : (directCall request).toList = 'i' :: (("nvokeHelper(__default(".toList ++
      (loadText request).toList ++ "), alias".toList) ++ ['1']) := by
    unfold directCall
    simp only [String.toList_append, hfirst, hlast, List.cons_append, List.append_assoc]
  rw [hcode]
  exact Text.standsAlone (by decide) (by decide) (by decide) inside

/-- **Compaction makes of a direct call the direct call with the tidied request.** -/
theorem compact_directCall (request : String) :
    Text.compact (directCall request) = directCall (Text.tidy request) := by
  have front : Leads [] [')', ')'] "invokeHelper(__default(".toList := .ofList rfl
  have hfront : Text.compact "invokeHelper(__default(" = "invokeHelper(__default(" := by decide +kernel
  have hback : Text.compact "), alias1" = "), alias1" := by decide +kernel
  unfold directCall
  rw [(standsAlone_loadText request).compact_append front _, compact_loadText, hfront, hback]

/-- **A direct call in code**, before and after compaction. -/
theorem compact_of_stands {sections : Option SectionNumbers} {name : String} {position : Position}
    {path : Path} {arguments : ArgumentsOf (ValueOf String)} {raw : String}
    (h : Stands (InvocationOf.text sections ⟨name, position, .helper (loadHelper path) arguments⟩) raw) :
    ∃ front rest back,
      InvocationOf.text sections ⟨name, position, .helper (loadHelper path) arguments⟩ =
        directCall path.storageForm ++ rest ∧
      raw = front ++ (directCall path.storageForm ++ rest) ++ back ∧
      Text.compact raw =
        Text.compact front ++ directCall (Text.tidy path.storageForm) ++ Text.compact (rest ++ back) := by
  obtain ⟨front, back, between, hfront, hraw⟩ := h
  obtain ⟨rest, htext⟩ := text_loadHelper sections name position path arguments
  rw [htext] at hraw
  refine ⟨front, rest, back, htext, hraw, ?_⟩
  have hsplit : front ++ (directCall path.storageForm ++ rest) ++ back =
      front ++ directCall path.storageForm ++ (rest ++ back) := by
    simp only [String.append_assoc]
  rw [hraw, hsplit, (standsAlone_directCall _).compact_append hfront, compact_directCall]

namespace Job

variable {plan : SearchPlan} {name : String} {suggest : String → List String} {source : String}
  {registry : Registry} {journal : Journal} {settled : Settled} {p : Progress}

/-! ## 2. A settled template -/

/-- **A helper that was found is known**, whether it was called, read as a member or found before. -/
theorem known_of_found
    (h : (ofTemplate plan name suggest).settle source registry journal = (.ok settled, p))
    {n : String} {path : Path} (hn : settled.table.path? .helper n = some path) :
    n ∈ p.registry.known := by
  obtain ⟨ht, place, _, ha⟩ := accounts_of_settle h
  rw [← ht, SymbolTable.path?_eq_some_iff, ha.helpers, Option.ite_none_right_eq_some] at hn
  obtain ⟨hcalled | ⟨hread, _⟩, hplace⟩ := hn
  · have hfound : (place n).isSome = true := by
      cases hp : place n with
      | some _ => rfl
      | none =>
        rw [hp] at hplace
        cases hplace
    exact (ha.known n).mpr (.inr ⟨hcalled, hfound⟩)
  · -- a member is written down only if its name is known
    rw [entries_ofTemplate] at hread
    obtain ⟨_, _, hs⟩ := List.mem_filterMap.mp hread
    exact (Reference.symbol?_ambiguous hs).1

/-- The spec tree of a settled template, and its code as it is written from the tree. -/
theorem spec_of_settle (hs : source ≠ "")
    (h : (ofTemplate plan name suggest).settle source registry journal = (.ok settled, p)) :
    let hints : Hints := ⟨plan.config.knownHelpersOnly, p.registry.known⟩
    let code := codeFrom (settled.table.codeOf plan.config.loadsInline)
    ∃ program, Program.parse source = .ok program ∧
      (linesOutline (program.spec hints).lines).fault = none ∧
      settled.code = Text.compact ((program.spec hints).fill code).specText := by
  intro hints code
  obtain ⟨_, raw, hcode, hrun, _⟩ := dialogue_of_settle hs h
  have hfault : (compilationOutline hints source).fault = none :=
    (asks_compilation hints source).fault_eq_none (congrArg Prod.fst hrun)
  cases hparse : Program.parse source with
  | error error =>
    rw [compilationOutline, hparse] at hfault
    cases hfault
  | ok program =>
    have hgives := (Program.spec_gives (settled.table.codeOf plan.config.loadsInline) hparse hfault).run_eq ()
    obtain rfl : raw = ((program.spec hints).fill code).specText :=
      Except.ok.inj (congrArg Prod.fst (hrun.symm.trans hgives))
    rw [compilationOutline, hparse] at hfault
    exact ⟨program, rfl, hfault, hcode⟩

/-- The code of a tree is never empty. -/
theorem compact_specText_ne_empty (body : BodyIn String) : Text.compact body.specText ≠ "" := by
  have hobject (fields : List String) : (objectText fields).toList =
      '\x7b' :: (String.intercalate "," fields ++ "\x7d").toList := by
    rw [objectText, String.append_assoc, String.toList_append]
    rfl
  have hfirm : Text.IsFirm '\x7b' := ⟨rfl, by decide, by decide⟩
  obtain ⟨rest, hrest⟩ := Text.compact_cons hfirm (by decide) (hobject _)
  intro hnil
  rw [BodyOf.specText] at hnil
  rw [hnil] at hrest
  cases hrest

/-- The code of a template is empty only if the template is. -/
theorem code_ne_empty (hs : source ≠ "")
    (h : (ofTemplate plan name suggest).settle source registry journal = (.ok settled, p)) :
    settled.code ≠ "" := by
  obtain ⟨program, _, _, hcode⟩ := spec_of_settle hs h
  rw [hcode]
  exact compact_specText_ne_empty _

/-- What a place that calls something comes to: its call stands in the code, and if it calls a helper that
    the table has found, the call is a direct one. In the final code the request is tidied. -/
structure CalledAt (table : SymbolTable) (raw code : String) (site : CallSite)
    (call : InvocationIn String) : Prop where
  position : call.position = site.call.position
  written : ∃ sections, Stands (InvocationOf.text sections call) raw
  direct : ∀ n path, site.helperName? = some n → table.path? .helper n = some path →
    call.name = n ∧ (∃ arguments, call.manner = .helper (loadHelper path) arguments) ∧
    ∃ sections front rest back,
      InvocationOf.text sections call = directCall path.storageForm ++ rest ∧
      raw = front ++ (directCall path.storageForm ++ rest) ++ back ∧
      code = Text.compact front ++ directCall (Text.tidy path.storageForm) ++ Text.compact (rest ++ back) ∧
      (Text.tidy path.storageForm = path.storageForm ↔ Text.Tidy path.storageForm.toList)

/-- **Every call of a helper that was found is a direct call.** The code of a settled template is written
    from a spec tree whose calls are, one by one, those of the places where the template calls something:
    mustaches, blocks and calls in parentheses. Where a place calls a helper that the table has found, and
    no block parameter has its name, its call takes the helper from the module that was found. -/
theorem found_helpers_called
    (h : (ofTemplate plan name suggest).settle source registry journal = (.ok settled, p)) :
    (source = "" → settled.code = "") ∧
    (source ≠ "" → ∃ (program : Program) (body : BodyIn String), Program.parse source = .ok program ∧
      settled.code = Text.compact body.specText ∧
      List.Forall₂ (CalledAt settled.table body.specText settled.code) program.sites body.calls) := by
  constructor
  · rintro rfl
    exact code_of_empty h
  intro hs
  obtain ⟨program, hparse, hf, hcode⟩ := spec_of_settle hs h
  let hints : Hints := ⟨plan.config.knownHelpersOnly, p.registry.known⟩
  let answers := settled.table.codeOf plan.config.loadsInline
  have ha : AnswersSound (σ := Unit) (always answers) := fun _ _ _ => sound_codeOf
  have hplain := plain_linesOf hints [] program.body (plain_parse source program hparse)
  have hcalls : ((program.spec hints).fill (codeFrom answers)).calls =
      program.sites.map fun site => InvocationOf.fill (codeFrom answers) (site.invocation hints) := by
    rw [BodyOf.calls_fill, Program.calls_spec hints program hf, List.map_map]
    rfl
  refine ⟨program, _, hparse, hcode, ?_⟩
  rw [hcalls, List.forall₂_map_right_iff, List.forall₂_same]
  intro site hsite
  have hstands := BodyOf.stands ha hplain hf _ (hcalls ▸ List.mem_map_of_mem hsite)
  constructor
  case position => rw [InvocationOf.position_fill, CallSite.position_invocation]
  case written => exact hstands
  case direct =>
    intro n path hn hpath
    have hknown : n ∈ hints.known := known_of_found h hpath
    obtain ⟨⟨params, hash⟩, hcall⟩ := CallSite.invocation_of_known hn hknown
    have hload : codeFrom answers (helperReference n) = loadHelper path := by
      show ((settled.table.path? .helper n).map loadHelper).getD _ = _
      rw [hpath]
      rfl
    rw [hcall, InvocationOf.fill, hload] at hstands ⊢
    obtain ⟨sections, hstands⟩ := hstands
    obtain ⟨front, rest, back, htext, hraw, hcompact⟩ := compact_of_stands hstands
    exact ⟨rfl, ⟨_, rfl⟩, sections, front, rest, back, htext, hraw, hcode.trans hcompact,
      Text.tidy_eq_self_iff⟩

/-- The template that calls a helper with a member of the context settles if every probe finds a file, and
    the table knows the file that the search for the helper finds. -/
theorem calls_settle_at {resolver : ModuleResolver} (steady : ∀ made, resolver made = resolver 0)
    (found : ∀ made base request, ∃ path, resolver made base request = .ok path) {path : Path}
    (hsearch : (SearchPlan.search (plain resolver) .helper "m" []).1 = some path) :
    ∃ settled p, (ofTemplate (plain resolver) "t" fun _ => []).settle "\x7b\x7bm n\x7d\x7d" {} [] =
        (.ok settled, p) ∧
      settled.table.path? .helper "m" = some path := by
  obtain ⟨settled, p, h⟩ := settles_callsWith found {}
  refine ⟨settled, p, h, ?_⟩
  obtain ⟨ht, place, _, ha⟩ := accounts_of_settle h
  have hasked : (SymbolKind.helper, "m") ∈ (ofTemplate (plain resolver) "t" fun _ => []).entries
      "\x7b\x7bm n\x7d\x7d" p := by
    rw [entries_ofTemplate, passOutline, if_neg (by decide), outline_callsWith rfl]
    exact List.mem_filterMap.mpr ⟨_, List.mem_cons_self, rfl⟩
  have hnone : Registry.path? {} "m" = none := by rfl
  have hplace := (ha.helper "m" hasked hnone).unique steady ⟨[], hsearch⟩
  rw [← ht, SymbolTable.path?_eq_some_iff, ha.helpers, if_pos (.inl hasked), hplace]
  rfl

/-- There the helper that was found is called. -/
theorem found_helpers_called_everywhere : ∃ settled p,
    (ofTemplate everywhere "t" fun _ => []).settle "\x7b\x7bm n\x7d\x7d" {} [] = (.ok settled, p) ∧
      ∃ front back,
        settled.code = front ++ "invokeHelper(__default(require(\"././m\")), alias1" ++ back := by
  obtain ⟨settled, p, h, hpath⟩ : ∃ settled p,
      (ofTemplate everywhere "t" fun _ => []).settle "\x7b\x7bm n\x7d\x7d" {} [] = (.ok settled, p) ∧
        settled.table.path? .helper "m" = some ⟨"././m"⟩ :=
    calls_settle_at (fun _ => rfl) (fun _ base request => ⟨base.join ⟨request⟩, rfl⟩) rfl
  obtain ⟨program, body, hparse, _, hcalls⟩ := (found_helpers_called h).2 (by decide)
  rw [parse_callsWith] at hparse
  cases hparse
  have hsites : Program.sites ⟨[.mustache callWith true], []⟩ = [⟨[], false, callWith⟩] := rfl
  rw [hsites] at hcalls
  obtain ⟨call, _, hcall, _⟩ := List.forall₂_cons_left_iff.mp hcalls
  obtain ⟨_, _, _, front, _, _, _, _, hcode, _⟩ := hcall.direct "m" ⟨"././m"⟩ rfl hpath
  have htidy : directCall (Text.tidy (Path.storageForm ⟨"././m"⟩)) =
      "invokeHelper(__default(require(\"././m\")), alias1" := by decide +kernel
  rw [htidy] at hcode
  exact ⟨settled, p, h, _, _, hcode⟩

/-- **A helper that was found is not the one that is called**: no direct call of it is in the code. -/
theorem direct_call_elsewhere : ∃ settled p,
    (ofTemplate spaced "t" fun _ => []).settle "\x7b\x7bm n\x7d\x7d" {} [] = (.ok settled, p) ∧
      settled.table.path? .helper "m" = some ⟨"a  b"⟩ ∧
      ¬ (directCall (Path.storageForm ⟨"a  b"⟩)).toList <:+: settled.code.toList := by
  obtain ⟨settled, p, h, hpath⟩ : ∃ settled p,
      (ofTemplate spaced "t" fun _ => []).settle "\x7b\x7bm n\x7d\x7d" {} [] = (.ok settled, p) ∧
        settled.table.path? .helper "m" = some ⟨"a  b"⟩ :=
    calls_settle_at (fun _ => rfl) (fun _ _ _ => ⟨_, rfl⟩) rfl
  refine ⟨settled, p, h, hpath, fun hcall => not_loads_spaced (by decide) h (List.IsInfix.trans ?_ hcall)⟩
  refine ⟨"invokeHelper(__default(".toList, "), alias1".toList, ?_⟩
  unfold directCall
  simp only [loadPath, String.toList_append]

end Job

end Stache
