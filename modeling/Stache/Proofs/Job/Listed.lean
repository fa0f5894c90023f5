import Stache.Proofs.Job.Calls
import Stache.Proofs.Job.Loads

/-!
# Which dependencies are loaded

A dependency is the file of a partial or of a helper that was found. The code of a settled template loads
it, unless nothing but a member of the context led to it: a known name that the template reads and calls
nowhere is looked for as a helper, and its file is listed though nobody loads it.

* `OnlyReads` -- the name is read as a member and nowhere called;
* `listed_loaded` -- **every dependency is loaded, or is the file of a name that is only read**;
* `code_callsWith` -- the code of the template that calls a helper with a member;
* `read_not_loaded` -- a dependency that the final code does not load.
-/

namespace Stache

open Dialogue (codeFrom)

/-- Among what is asked about, the name is a member of the context, and nowhere a helper. -/
structure OnlyReads (asked : List Reference) (name : String) : Prop where
  read : ∃ base, .symbol .context base name ∈ asked
  uncalled : ∀ base, .symbol .helper base name ∉ asked

theorem not_mem_ofList {c : Char} {chars : List Char} (h : chars.contains c = false) :
    c ∉ (String.ofList chars).toList := by
  rw [String.toList_ofList]
  simpa using h

namespace Job

variable {plan : SearchPlan} {name : String} {suggest : String → List String} {source : String}
  {registry : Registry} {journal : Journal} {settled : Settled} {p : Progress}

/-! ## 1. What leads to a dependency -/

/-- A symbol that was found was asked about in the last pass: as what it was found, or a helper as a member
    of the context with the name of a known helper. -/
theorem asked_of_found
    (h : (ofTemplate plan name suggest).settle source registry journal = (.ok settled, p))
    {kind : SymbolKind} {n : String} {path : Path} (hn : settled.table.path? kind n = some path) :
    (kind, n) ∈ (ofTemplate plan name suggest).entries source p ∨
      kind = .helper ∧ (.ambiguous, n) ∈ (ofTemplate plan name suggest).entries source p ∧
        settled.table.path? .ambiguous n = some path := by
  obtain ⟨ht, place, file, ha⟩ := accounts_of_settle h
  rw [← ht, SymbolTable.path?_eq_some_iff] at hn
  cases kind with
  | partialTemplate =>
    rw [ha.partials, Option.ite_none_right_eq_some] at hn
    exact .inl hn.1
  | ambiguous =>
    rw [ha.ambiguous, Option.ite_none_right_eq_some] at hn
    exact .inl hn.1
  | helper =>
    rw [ha.helpers, Option.ite_none_right_eq_some] at hn
    obtain ⟨hcalled | ⟨hread, _⟩, hplace⟩ := hn
    · exact .inl hcalled
    · refine .inr ⟨rfl, hread, ?_⟩
      rw [← ht, SymbolTable.path?_eq_some_iff, ha.ambiguous, if_pos hread]
      exact hplace

/-- An empty template asks about nothing, so it depends on nothing. -/
theorem dependencies_of_empty
    (h : (ofTemplate plan name suggest).settle "" registry journal = (.ok settled, p)) :
    settled.table.dependencies = [] := by
  have hnone : (ofTemplate plan name suggest).entries "" p = [] := by
    rw [entries_ofTemplate, passOutline, if_pos rfl]
    rfl
  refine List.eq_nil_iff_forall_not_mem.mpr fun path hpath => ?_
  obtain ⟨kind, n, _, hn⟩ := SymbolTable.found_of_mem_dependencies hpath
  rcases asked_of_found h hn with he | ⟨_, he, _⟩
  · rw [hnone] at he
    cases he
  · rw [hnone] at he
    cases he

/-- The last pass of a template that is not empty asks about its entries. -/
theorem mem_asked_of_entry (hs : source ≠ "") {kind : SymbolKind} {n : String}
    (he : (kind, n) ∈ (ofTemplate plan name suggest).entries source p) :
    ∃ reference ∈ (compilationOutline ⟨plan.config.knownHelpersOnly, p.registry.known⟩ source).references,
      reference.symbol? p.registry = some (kind, n) := by
  rw [entries_ofTemplate, passOutline, if_neg hs] at he
  exact List.mem_filterMap.mp he

/-! ## 2. Loaded or only read -/

/-- **Every dependency of a settled template is loaded, or is the file of a name that is only read.** In
    the first case some name is answered with the load of the file, the load stands in the code before
    compaction, and in the final code there stands the load of the tidied request. In the second the name
    is that of a known helper, was found as a member of the context, and is called nowhere. -/
theorem listed_loaded
    (h : (ofTemplate plan name suggest).settle source registry journal = (.ok settled, p)) :
    (source = "" → settled.table.dependencies = []) ∧
    (source ≠ "" →
      let hints : Hints := ⟨plan.config.knownHelpersOnly, p.registry.known⟩
      let policy := settled.table.tell plan.config.loadsInline
      let asked := (compilation hints source).asked policy ()
      ∃ raw, (compilation hints source).run policy () = (.ok raw, ()) ∧
        settled.code = Text.compact raw ∧
        ∀ path ∈ settled.table.dependencies,
          (∃ kind base n text, .symbol kind base n ∈ asked ∧
            (policy (.symbol kind base n) ()).1 = some text ∧ IsLoad settled.table n path kind text ∧
            LoadStands path raw settled.code) ∨
          ∃ n, OnlyReads asked n ∧ n ∈ p.registry.known ∧
            settled.table.path? .helper n = some path ∧ settled.table.path? .ambiguous n = some path) := by
  constructor
  · rintro rfl
    exact dependencies_of_empty h
  intro hs hints policy asked
  obtain ⟨raw, hrun, hcode, hloads⟩ := loads_of_settle hs h
  refine ⟨raw, hrun, hcode, fun path hpath => ?_⟩
  have hasked : asked = (compilationOutline hints source).references :=
    (asks_compilation hints source).asked_eq ..
  -- a partial or a helper that is asked about is answered with the load of its file
  have loaded {kind : LookupKind} {base : Base} {n : String} {text : String}
      (hm : .symbol kind base n ∈ asked)
      (htext : settled.table.codeOf plan.config.loadsInline (.symbol kind base n) = some text)
      (hload : IsLoad settled.table n path kind text) :
      ∃ kind base n text, .symbol kind base n ∈ asked ∧
        (policy (.symbol kind base n) ()).1 = some text ∧ IsLoad settled.table n path kind text ∧
        LoadStands path raw settled.code := by
    obtain ⟨other, hother, hstands⟩ := hloads kind base n hm text htext
    obtain rfl : other = path := hother.unique hload
    exact ⟨kind, base, n, text, hm, htext, hload, hstands⟩
  obtain ⟨kind, n, hk, hn⟩ := SymbolTable.found_of_mem_dependencies hpath
  rcases asked_of_found h hn with he | ⟨rfl, hread, hm⟩
  · obtain ⟨reference, hr, he⟩ := mem_asked_of_entry hs he
    rw [← hasked] at hr
    cases kind with
    | partialTemplate =>
      obtain ⟨base, rfl, hown⟩ := Reference.eq_of_symbol?_partial he
      exact .inl (loaded hr (codeOf_partial hown hn) (.partialTemplate hn))
    | helper =>
      obtain ⟨base, rfl⟩ := Reference.eq_of_symbol?_helper he
      exact .inl (loaded hr (codeOf_helper hn) (.helper hn))
    | ambiguous => exact absurd rfl hk
  · obtain ⟨reference, hr, he⟩ := mem_asked_of_entry hs hread
    rw [← hasked] at hr
    obtain ⟨base, rfl⟩ := Reference.eq_of_symbol?_ambiguous he
    by_cases hcalled : ∃ base, .symbol .helper base n ∈ asked
    · obtain ⟨base, hc⟩ := hcalled
      exact .inl (loaded hc (codeOf_helper hn) (.helper hn))
    · have hread : OnlyReads asked n := ⟨⟨base, hr⟩, fun base hc => hcalled ⟨base, hc⟩⟩
      exact .inr ⟨n, hread, (Reference.symbol?_ambiguous he).1, hn, hm⟩

/-! ## 3. A file that is only listed -/

/-- The spec tree of the template that calls a helper, given as code, with a member of the context. -/
def calledWith (helper : String) : BodyIn String :=
  ⟨[.escaped ⟨"m", .start, .helper helper
    ⟨[.chain ⟨.context, [Reference.default (.symbol .context .context "n")]⟩], []⟩⟩], []⟩

/-- Its code is written from that tree. -/
theorem code_callsWith {resolver : ModuleResolver} {path : Path}
    (h : (ofTemplate (plain resolver) "t" fun _ => []).settle "\x7b\x7bm n\x7d\x7d" registry journal =
      (.ok settled, p))
    (hm : settled.table.path? .helper "m" = some path) :
    settled.code = Text.compact (calledWith (loadHelper path)).specText := by
  obtain ⟨program, hparse, _, hcode⟩ := spec_of_settle (by decide) h
  rw [parse_callsWith] at hparse
  cases hparse
  rw [hcode]
  congr 2
  show BodyOf.fill _ ⟨[.escaped (Call.invocation _ [] false callWith)], []⟩ = _
  rw [Call.invocation_of_helper (calleeKind_callWith rfl .start)]
  have hload : codeFrom (settled.table.codeOf fun _ => false) (helperReference "m") = loadHelper path := by
    rw [codeFrom, helperReference, codeOf_helper hm]
    rfl
  exact congrArg calledWith hload

/-- That code has no hash sign but those of the helper. -/
theorem not_mem_calledWith {helper : String} (h : '#' ∉ helper.toList) :
    '#' ∉ (calledWith helper).specText.toList := by
  dsimp only [-String.reduceAppend, calledWith, BodyOf.specText, writtenLines, LineOf.written,
    InvocationOf.text, applyText, objectText, fieldText, functionText, signature, prologue, linesNeeds,
    LineOf.needs, InvocationOf.needs, paramsNeeds, hashNeeds, Needs.or, Needs.nothing, ValueOf.needs,
    numberedFields, flagField, paramTexts, hashTexts, ValueOf.text, ChainOf.text, chainText, optionsText,
    appendText, Base.text, Base.isAncestor, Reference.default, locationText, Position.start, List.nil_append,
    List.append_nil, List.cons_append]
  simp only [-String.reduceAppend, String.toList_append, String.intercalate_cons_cons,
    String.intercalate_singleton, String.intercalate_nil, List.mem_append, not_or, Option.map_none,
    Option.getD_none, List.nil_append, Bool.or_self, Bool.false_eq_true, if_false, List.append_nil]
  and_intros
  all_goals first
    | with_reducible exact h
    | exact not_mem_ofList (by decide +kernel)

/-- A plan with which every name with an `n` is found in one file, and all others in another. -/
def marked : SearchPlan where
  resolver _ _ request := .ok ⟨if 'n' ∈ request.toList then "#" else "m"⟩
  config := {}
  templateDir := ⟨"."⟩

/-- There the template that calls a helper with the name of a helper settles, and what it found are the
    files of the two names. -/
theorem settles_marked : ∃ settled p,
    (ofTemplate marked "t" fun _ => []).settle "\x7b\x7bm n\x7d\x7d" (.insert {} "n") [] = (.ok settled, p) ∧
      settled.table.path? .helper "m" = some ⟨"m"⟩ ∧ settled.table.path? .helper "n" = some ⟨"#"⟩ ∧
      ∀ kind n path, settled.table.path? kind n = some path → path = ⟨"m"⟩ ∨ path = ⟨"#"⟩ := by
  obtain ⟨settled, p, h⟩ : ∃ settled p, (ofTemplate marked "t" fun _ => []).settle
      "\x7b\x7bm n\x7d\x7d" (.insert {} "n") [] = (.ok settled, p) :=
    settles_callsWith (fun _ _ request => ⟨⟨if 'n' ∈ request.toList then "#" else "m"⟩, rfl⟩)
      (.insert {} "n")
  obtain ⟨ht, place, _, ha⟩ := accounts_of_settle h
  have hknown : "n" ∈ p.registry.known := by
    rw [ha.known]
    exact .inl (by simp [Registry.insert])
  let asked : List (SymbolKind × String) := [(.helper, "m"), (.ambiguous, "n")]
  have hasked : (ofTemplate marked "t" fun _ => []).entries "\x7b\x7bm n\x7d\x7d" p = asked := by
    rw [entries_ofTemplate, passOutline, if_neg (by decide), outline_callsWith rfl]
    simp [asked, Reference.symbol?, helperReference, hknown]
  rw [hasked] at ha
  have hsearchm : (marked.search .helper "m" []).1 = some ⟨"m"⟩ := rfl
  have hsearchn : (marked.search .ambiguous "n" []).1 = some ⟨"#"⟩ := rfl
  have hm := (ha.helper "m" List.mem_cons_self rfl).unique (fun _ => rfl) ⟨[], hsearchm⟩
  have hn := (ha.member "n" (by decide) (by decide)).unique (fun _ => rfl) ⟨[], hsearchn⟩
  refine ⟨settled, p, h, ?_, ?_, fun kind n path hpath => ?_⟩
  · rw [← ht, SymbolTable.path?_eq_some_iff, ha.helpers, if_pos (.inl List.mem_cons_self), hm]
    rfl
  · rw [← ht, SymbolTable.path?_eq_some_iff, ha.helpers, if_pos (.inr ⟨by decide, by rw [hn]; rfl⟩), hn]
    rfl
  · rw [← ht, SymbolTable.path?_eq_some_iff] at hpath
    have hplace (n : String) (he : (.helper, n) ∈ asked ∨ (.ambiguous, n) ∈ asked)
        (hstate : Resolution.ofSearch (place n) = .resolved path) : path = ⟨"m"⟩ ∨ path = ⟨"#"⟩ := by
      have hname : n = "m" ∨ n = "n" := by simpa [asked] using he
      rcases hname with rfl | rfl
      · rw [hm] at hstate
        cases hstate
        exact .inl rfl
      · rw [hn] at hstate
        cases hstate
        exact .inr rfl
    cases kind with
    | partialTemplate =>
      rw [ha.partials, if_neg (by simp [asked])] at hpath
      cases hpath
    | helper =>
      rw [ha.helpers, Option.ite_none_right_eq_some] at hpath
      exact hplace n (hpath.1.imp id And.left) (Option.some.inj hpath.2)
    | ambiguous =>
      rw [ha.ambiguous, Option.ite_none_right_eq_some] at hpath
      exact hplace n (.inr hpath.1) (Option.some.inj hpath.2)

/-- There the file of the helper that is called is loaded, and that of the name that is read is not. -/
theorem listed_loaded_marked : ∃ settled p,
    (ofTemplate marked "t" fun _ => []).settle "\x7b\x7bm n\x7d\x7d" (.insert {} "n") [] = (.ok settled, p) ∧
      ∀ path ∈ settled.table.dependencies,
        (∃ raw, LoadStands path raw settled.code) ∨ settled.table.path? .ambiguous "n" = some path := by
  obtain ⟨settled, p, h, _⟩ := settles_marked
  refine ⟨settled, p, h, fun path hpath => ?_⟩
  obtain ⟨raw, _, _, hlisted⟩ := (listed_loaded h).2 (by decide)
  rcases hlisted path hpath with ⟨_, _, _, _, _, _, _, hstands⟩ | ⟨n, honly, _, _, hread⟩
  · exact .inl ⟨raw, hstands⟩
  · obtain ⟨base, hasked⟩ := honly.read
    rw [(asks_compilation _ _).asked_eq, outline_callsWith rfl] at hasked
    obtain ⟨_, rfl⟩ : base = .context ∧ n = "n" := by simpa [helperReference] using hasked
    exact .inr hread

/-- **A dependency that the final code does not load**: the file of a name that is only read. -/
theorem read_not_loaded : ∃ settled p,
    (ofTemplate marked "t" fun _ => []).settle "\x7b\x7bm n\x7d\x7d" (.insert {} "n") [] = (.ok settled, p) ∧
      ⟨"#"⟩ ∈ settled.table.dependencies ∧
      ¬ (loadPath ⟨"#"⟩).toList <:+: settled.code.toList := by
  obtain ⟨settled, p, h, hm, hn, honly⟩ := settles_marked
  refine ⟨settled, p, h, ?_, fun hload => ?_⟩
  · obtain ⟨listed, hlisted, hsame⟩ :=
      SymbolTable.listed_of_found (by decide : SymbolKind.helper ≠ .ambiguous) hn
    obtain ⟨kind, n, _, hpath⟩ := SymbolTable.found_of_mem_dependencies hlisted
    rcases honly kind n listed hpath with rfl | rfl
    · exact absurd hsame (by decide)
    · exact hlisted
  · have hmark : '#' ∈ (loadPath ⟨"#"⟩).toList := by decide
    have hcode := hload.subset hmark
    rw [code_callsWith h hm, Text.compact, String.toList_ofList] at hcode
    rcases Text.mem_compacted hcode with hcode | hspace
    · exact not_mem_calledWith (by decide) hcode
    · exact absurd hspace (by decide)

end Job

end Stache
