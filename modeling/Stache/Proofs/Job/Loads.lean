import Stache.Proofs.Job.Again
import Stache.Proofs.Job.Literals
import Stache.Proofs.Symbol.Dependencies

/-!
# Loads and dependencies

Every load that is put in for a name is the load of a file that was found, and that file is listed among
the dependencies. The load in the final code is that of the tidied request.

* `isLoad_of_codeOf` -- the codes that a table has for names;
* `loads_of_settle` -- the loads that the last pass of a settled template puts in;
* `settled_loads` -- each load of a settled template and the dependency that it stands for;
* `load_not_listed` -- a load in the final code that stands for none.
-/

namespace Stache

/-- The code is the load of the file that a table has for a name: of a partial as it is, of a helper inside
    the call that takes its default export. -/
inductive IsLoad (table : SymbolTable) (name : String) (path : Path) : LookupKind → String → Prop where
  | partialTemplate (found : table.path? .partialTemplate name = some path) :
    IsLoad table name path .partialTemplate (loadPath path)
  | helper (found : table.path? .helper name = some path) :
    IsLoad table name path .helper (loadHelper path)

section IsLoad

variable {table : SymbolTable} {kind : LookupKind} {name text : String} {path : Path}

/-- **The code that a table has for a name** is a load of the file that was found for it. -/
theorem isLoad_of_codeOf {inline : String → Bool} {base : Base}
    (h : table.codeOf inline (.symbol kind base name) = some text) :
    ∃ path, IsLoad table name path kind text := by
  cases kind with
  | partialTemplate =>
    simp only [SymbolTable.codeOf, Option.ite_none_left_eq_some] at h
    obtain ⟨path, hp, rfl⟩ := Option.map_eq_some_iff.mp h.2
    exact ⟨path, .partialTemplate hp⟩
  | helper =>
    obtain ⟨path, hp, rfl⟩ := Option.map_eq_some_iff.mp h
    exact ⟨path, .helper hp⟩
  | context => cases h
  | data => cases h

/-- A helper that was found is answered with its load. -/
theorem codeOf_helper {inline : String → Bool} {base : Base} (h : table.path? .helper name = some path) :
    table.codeOf inline (.symbol .helper base name) = some (loadHelper path) := by
  show (table.path? .helper name).map loadHelper = _
  rw [h]
  rfl

/-- So is a partial that the runtime does not provide. -/
theorem codeOf_partial {inline : String → Bool} {base : Base} (hown : isProvidedPartial name = false)
    (h : table.path? .partialTemplate name = some path) :
    table.codeOf inline (.symbol .partialTemplate base name) = some (loadPath path) := by
  show (if isProvidedPartial name then none else _) = _
  rw [hown, h]
  rfl

/-- What is loaded is a dependency. -/
theorem IsLoad.listed (h : IsLoad table name path kind text) :
    ∃ listed ∈ table.dependencies, listed.components = path.components := by
  cases h with
  | partialTemplate found =>
    exact SymbolTable.listed_of_found (by decide : SymbolKind.partialTemplate ≠ .ambiguous) found
  | helper found => exact SymbolTable.listed_of_found (by decide : SymbolKind.helper ≠ .ambiguous) found

theorem IsLoad.found_partial (h : IsLoad table name path .partialTemplate text) :
    table.path? .partialTemplate name = some path := by
  cases h with
  | partialTemplate found => exact found

theorem IsLoad.text_eq (h : IsLoad table name path kind text) :
    text = loadPath path ∨ text = loadHelper path := by
  cases h with
  | partialTemplate => exact .inl rfl
  | helper => exact .inr rfl

/-- A name is answered with the load of one file. -/
theorem IsLoad.unique {other : Path} {text' : String} (h : IsLoad table name path kind text)
    (h' : IsLoad table name other kind text') : path = other := by
  cases h with
  | partialTemplate found =>
    cases h' with
    | partialTemplate found' => exact Option.some.inj (found.symm.trans found')
  | helper found =>
    cases h' with
    | helper found' => exact Option.some.inj (found.symm.trans found')

end IsLoad

/-- The load of a file stands in code, and in the compacted code the load of the tidied request, which is
    the same exactly if the request is tidy. -/
def LoadStands (path : Path) (raw code : String) : Prop :=
  ∃ front back, raw = front ++ loadPath path ++ back ∧
    code = Text.compact front ++ loadText (Text.tidy path.storageForm) ++ Text.compact back ∧
    (Text.tidy path.storageForm = path.storageForm ↔ Text.Tidy path.storageForm.toList)

namespace Job

variable {plan : SearchPlan} {name : String} {suggest : String → List String} {source : String}
  {registry : Registry} {journal : Journal} {settled : Settled} {p : Progress}

/-- The last pass of a settled template, and the loads that it puts in for names. -/
theorem loads_of_settle (hs : source ≠ "")
    (h : (ofTemplate plan name suggest).settle source registry journal = (.ok settled, p)) :
    let hints : Hints := ⟨plan.config.knownHelpersOnly, p.registry.known⟩
    let policy := settled.table.tell plan.config.loadsInline
    ∃ raw, (compilation hints source).run policy () = (.ok raw, ()) ∧
      settled.code = Text.compact raw ∧
      ∀ kind base n, .symbol kind base n ∈ (compilation hints source).asked policy () →
        ∀ text, (policy (.symbol kind base n) ()).1 = some text →
          ∃ path, IsLoad settled.table n path kind text ∧ LoadStands path raw settled.code := by
  intro hints policy
  obtain ⟨_, raw, hcode, hrun, _⟩ := dialogue_of_settle hs h
  have hraw : ((compilation hints source).run policy ()).1 = .ok raw := congrArg Prod.fst hrun
  refine ⟨raw, hrun, hcode, fun kind base n hm text htext => ?_⟩
  rw [(asks_compilation hints source).asked_eq] at hm
  change settled.table.codeOf plan.config.loadsInline (.symbol kind base n) = some text at htext
  obtain ⟨path, hload⟩ := isLoad_of_codeOf htext
  have hcodeOf := hload.text_eq.imp (fun e => e ▸ htext) fun e => e ▸ htext
  obtain ⟨front, back, hsplit, hcompact⟩ := compilation_loads hraw hm hcodeOf
  exact ⟨path, hload, front, back, hsplit, hcode.trans hcompact, Text.tidy_eq_self_iff⟩

/-- **What the code of a settled template loads**: wherever it is answered with code that a name refers to
    something, the code loads a file that is listed among the dependencies, by its components. That load
    stands in the code before compaction; in the final code there stands the load of the tidied request,
    which is the same exactly if the request is tidy. -/
theorem settled_loads
    (h : (ofTemplate plan name suggest).settle source registry journal = (.ok settled, p)) :
    (source = "" → settled.code = "") ∧
    (source ≠ "" →
      let hints : Hints := ⟨plan.config.knownHelpersOnly, p.registry.known⟩
      let policy := settled.table.tell plan.config.loadsInline
      ∃ raw, (compilation hints source).run policy () = (.ok raw, ()) ∧
        settled.code = Text.compact raw ∧
        ∀ kind base n, .symbol kind base n ∈ (compilation hints source).asked policy () →
          ∀ text, (policy (.symbol kind base n) ()).1 = some text →
            ∃ path, IsLoad settled.table n path kind text ∧
              (∃ listed ∈ settled.table.dependencies, listed.components = path.components) ∧
              ∃ front back, raw = front ++ loadPath path ++ back ∧
                settled.code =
                  Text.compact front ++ loadText (Text.tidy path.storageForm) ++ Text.compact back ∧
                (Text.tidy path.storageForm = path.storageForm ↔
                  Text.Tidy path.storageForm.toList)) := by
  constructor
  · rintro rfl
    exact code_of_empty h
  intro hs hints policy
  obtain ⟨raw, hrun, hcode, hloads⟩ := loads_of_settle hs h
  refine ⟨raw, hrun, hcode, fun kind base n hm text htext => ?_⟩
  obtain ⟨path, hload, hstands⟩ := hloads kind base n hm text htext
  exact ⟨path, hload, hload.listed, hstands⟩

/-- The template that names one partial loads the file of the partial, and the file is listed. -/
theorem settled_loads_everywhere : ∃ settled p,
    (ofTemplate everywhere "t" fun _ => []).settle "\x7b\x7b>b\x7d\x7d" {} [] = (.ok settled, p) ∧
      (∃ listed ∈ settled.table.dependencies,
        listed.components = Path.components ⟨"././b.handlebars"⟩) ∧
      ∃ front back, settled.code = front ++ "require(\"././b.handlebars\")" ++ back := by
  obtain ⟨settled, p, h, hpath, _⟩ : ∃ settled p,
      (ofTemplate everywhere "t" fun _ => []).settle "\x7b\x7b>b\x7d\x7d" {} [] = (.ok settled, p) ∧
        settled.table.path? .partialTemplate "b" = some ⟨"././b.handlebars"⟩ ∧
        ∀ kind n other, settled.table.path? kind n = some other → other = ⟨"././b.handlebars"⟩ :=
    settles_at (fun _ => rfl) (fun _ base request => ⟨base.join ⟨request⟩, rfl⟩) rfl
  obtain ⟨raw, _, _, hloads⟩ := (settled_loads h).2 (by decide)
  have hasked : Reference.symbol .partialTemplate .partials "b" ∈
      (compilation ⟨everywhere.config.knownHelpersOnly, p.registry.known⟩ "\x7b\x7b>b\x7d\x7d").asked
        (settled.table.tell everywhere.config.loadsInline) () := by
    rw [asked_namesPartial]
    exact List.mem_singleton.mpr rfl
  have hcode : settled.table.codeOf everywhere.config.loadsInline
      (.symbol .partialTemplate .partials "b") = some (loadPath ⟨"././b.handlebars"⟩) := by
    show (settled.table.path? .partialTemplate "b").map loadPath = _
    rw [hpath]
    rfl
  obtain ⟨path, hload, hlisted, front, back, _, hfinal, _⟩ := hloads _ _ _ hasked _ hcode
  obtain rfl : path = ⟨"././b.handlebars"⟩ := Option.some.inj (hload.found_partial.symm.trans hpath)
  have htidy : loadText (Text.tidy (Path.storageForm ⟨"././b.handlebars"⟩)) =
      "require(\"././b.handlebars\")" := by decide
  rw [htidy] at hfinal
  exact ⟨settled, p, h, hlisted, _, _, hfinal⟩

/-- **The final code loads a file that is not listed**: it is not the one that was found. -/
theorem load_not_listed : ∃ settled p,
    (ofTemplate spaced "t" fun _ => []).settle "\x7b\x7b>b\x7d\x7d" {} [] = (.ok settled, p) ∧
      (∃ front back, settled.code = front ++ loadPath ⟨"a b"⟩ ++ back) ∧
      ∀ listed ∈ settled.table.dependencies, listed.components ≠ Path.components ⟨"a b"⟩ := by
  obtain ⟨settled, p, h, hpath, honly⟩ := settles_spaced
  refine ⟨settled, p, h, ?_, fun listed hlisted hsame => ?_⟩
  · obtain ⟨_, raw, hcode, hrun, _⟩ := dialogue_of_settle (by decide) h
    have hcodeOf : settled.table.codeOf spaced.config.loadsInline
        (.symbol .partialTemplate .partials "b") = some (loadPath ⟨"a  b"⟩) := by
      show (settled.table.path? .partialTemplate "b").map loadPath = _
      rw [hpath]
      rfl
    have hasked : Reference.symbol .partialTemplate .partials "b" ∈
        (compilationOutline ⟨spaced.config.knownHelpersOnly, p.registry.known⟩
          "\x7b\x7b>b\x7d\x7d").references := by
      rw [outline_namesPartial]
      exact List.mem_singleton.mpr rfl
    obtain ⟨front, back, _, hcompact⟩ :=
      compilation_loads (congrArg Prod.fst hrun) hasked (.inl hcodeOf)
    have htidy : Text.tidy (Path.storageForm ⟨"a  b"⟩) = Path.storageForm ⟨"a b"⟩ := by decide
    exact ⟨_, _, by rw [hcode, hcompact, htidy, loadPath]⟩
  · obtain ⟨kind, n, _, hlisted⟩ := SymbolTable.found_of_mem_dependencies hlisted
    rw [honly kind n listed hlisted] at hsame
    revert hsame
    decide

end Job

end Stache
