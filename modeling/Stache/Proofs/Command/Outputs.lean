import Stache.Proofs.Command.Turns
import Stache.Proofs.Job.Calls
import Stache.Proofs.Job.Hits

/-!
# What templates are compiled to

The module of a template is written into the directory under the stem of the template's name, so the names
of directories and extensions are no matter: of the templates that have one stem the last one that is
compiled keeps its module. Templates with different stems do not touch each other's modules, and neither do
the entries of a store.

* `outputStem`, `outputName` -- what a module is written under;
* `Output`, `Turns.output` -- the file that a template is compiled to, and what the later turns keep;
* `outputs_written` -- **the directory holds the module of the last template with each stem**;
* `outputs_collide` -- two templates with one stem: both are compiled, and the module of the first is gone.
-/

namespace Stache

open ModuleStore (entryName)
open FileTree (Changed Wrote nowhere)

/-! ## 1. Names -/

namespace CompileRequest

variable (outDir template : Path)

/-- The stem of a template's name. -/
def outputStem : String :=
  template.fileStem?.getD "template"

/-- The name of the file that its module is written to. -/
def outputName : String :=
  outputStem template ++ ".js"

/-- It has no separator. -/
theorem not_mem_outputName : '/' ∉ (outputName template).toList := by
  have hstem : '/' ∉ (outputStem template).toList := by
    unfold outputStem
    cases hstem : template.fileStem? with
    | none => decide
    | some stem => exact Path.not_mem_fileStem hstem
  rw [outputName, String.toList_append, List.mem_append, not_or]
  exact ⟨hstem, by decide⟩

theorem getLast?_outputName : (outputName template).toList.getLast? = some 's' := by
  rw [outputName, String.toList_append]
  exact List.getLast?_append_of_ne_nil _ (by decide)

theorem isNamePart_outputName : FileTree.isNamePart (outputName template).toList = true := by
  refine Path.isNamePart_of_length ?_
  rw [outputName, String.toList_append, List.length_append]
  exact Nat.lt_add_left _ (by decide)

/-- It is not the name of an entry in a store. -/
theorem outputName_ne_entryName (other : Path) : outputName template ≠ entryName other := by
  intro h
  have hlast := getLast?_outputName template
  rw [h, entryName, String.toList_append, List.getLast?_append_of_ne_nil _ (by decide)] at hlast
  exact absurd hlast (by decide)

variable {template} in
/-- Names of modules differ as the stems do. -/
theorem stem_of_outputName {other : Path} (h : outputName other = outputName template) :
    outputStem other = outputStem template := by
  have hlist := congrArg String.toList h
  unfold outputName at hlist
  rw [String.toList_append, String.toList_append] at hlist
  exact String.toList_inj.mp (List.append_cancel_right hlist)

/-- **A module is written under its name** in the directory. -/
theorem placeFrom_targetIn (cwd : Location) :
    (targetIn outDir template).placeFrom cwd = outDir.placeFrom cwd ++ [outputName template] :=
  outDir.placeFrom_join (not_mem_outputName template) (isNamePart_outputName template) cwd

/-- Where a module stands, it stands under its name. -/
theorem name_of_locate {tree : FileTree} {place : Location}
    (h : tree.locate (targetIn outDir template) = .ok place) :
    place.getLast? = some (outputName template) := by
  rw [FileTree.place_of_locate h, placeFrom_targetIn, List.getLast?_concat]

end CompileRequest

open CompileRequest

/-! ## 2. What a turn writes -/

section Step

variable {config : Config} {outDir template other : Path} {build later : Build} {loaded : Loaded}
  {text : String} {tree made : FileTree} {places : Location → Prop}

/-- A load that reads its template first writes at most an entry, too. -/
theorem loadFile_changed {result : Except LoadError Loaded}
    (h : (loadFile config template).exec build = (result, later)) :
    Changed IsEntry build.tree later.tree := by
  rcases loadFile_eq h with ⟨source, _, hload⟩ | ⟨_, rfl⟩
  · exact load_changed hload
  · exact .refl _

/-- A turn that fails writes at most an entry. -/
theorem Turn.failed_changed {failure : Failure}
    (h : Turn config outDir template build (.error failure, later)) :
    Changed IsEntry build.tree later.tree := by
  cases h with
  | misplaced => exact .refl _
  | unloaded _ load => exact loadFile_changed load
  | @unwritten _ loaded middle _ _ _ _ load write told =>
    have hw := middle.tree.writeFile_spec (targetIn outDir template) loaded.text
    rw [write] at hw
    cases hw with
    | failed hkept => exact (loadFile_changed load).trans (told.tree ▸ hkept.ofNowhere)

/-- A turn that is done writes the module, too. -/
theorem Turn.done_wrote (h : Turn config outDir template build (.ok loaded, later)) :
    ∃ middle place, Changed IsEntry build.tree middle ∧
      Wrote (targetIn outDir template) (.ofText loaded.text) middle place later.tree := by
  cases h with
  | @written _ _ middle _ _ _ load write told =>
    have hw := middle.tree.writeFile_spec (targetIn outDir template) loaded.text
    rw [write] at hw
    cases hw with
    | wrote hwrote =>
      rw [told.tree]
      exact ⟨middle.tree, _, loadFile_changed load, hwrote⟩

/-! ## 3. What the directory holds -/

/-- The directory holds the text as what the template is compiled to. -/
def Output (outDir template : Path) (text : String) (tree : FileTree) : Prop :=
  ∃ place modified, tree.locate (targetIn outDir template) = .ok place ∧
    tree.entryAt? place = some (.file (.ofText text) modified)

namespace Output

/-- It is read there. -/
theorem readText (h : Output outDir template text tree) :
    tree.readText (targetIn outDir template) = .ok text := by
  obtain ⟨place, modified, hplace, hentry⟩ := h
  exact FileTree.readText_eq_ok.mpr ⟨place, _, modified, hplace, hentry, FileTree.text?_ofText text⟩

theorem ofWrote {place : Location}
    (h : Wrote (targetIn outDir template) (.ofText text) tree place made) : Output outDir template text made :=
  ⟨place, tree.now, h.locate, h.entry⟩

/-- What is written under other names is no matter. -/
theorem ofChanged (h : Output outDir template text tree) (hc : Changed places tree made)
    (hp : ∀ place, place.getLast? = some (outputName template) → ¬ places place) :
    Output outDir template text made := by
  obtain ⟨place, modified, hplace, hentry⟩ := h
  have hname := name_of_locate outDir template hplace
  exact ⟨place, modified, hc.locate hplace, hc.same place _ (hp place hname) hentry⟩

/-- Neither are entries of a store. -/
theorem ofEntries (h : Output outDir template text tree) (hc : Changed IsEntry tree made) :
    Output outDir template text made := by
  refine h.ofChanged hc fun place hname hentry => ?_
  obtain ⟨stored, hstored⟩ := hentry
  rw [hname] at hstored
  exact outputName_ne_entryName template stored (Option.some.inj hstored)

end Output

/-- **The turn of a template keeps the modules of templates with other stems.** -/
theorem Turn.keeps (h : Turn config outDir other build (.ok loaded, later))
    (hstem : outputStem other ≠ outputStem template) (ho : Output outDir template text build.tree) :
    Output outDir template text later.tree := by
  obtain ⟨middle, place, hmiddle, hwrote⟩ := h.done_wrote
  refine (ho.ofEntries hmiddle).ofChanged hwrote.changed ?_
  rintro _ hname rfl
  rw [name_of_locate outDir other hwrote.locate] at hname
  exact hstem (stem_of_outputName (Option.some.inj hname))

variable {templates : List Path} {done before after : List (Path × Loaded)} {failure : Option Failure}

/-- So do any number of turns. -/
theorem Turns.keeps (h : Turns config outDir build templates done failure later)
    (hstems : ∀ entry ∈ done, outputStem entry.1 ≠ outputStem template)
    (ho : Output outDir template text build.tree) : Output outDir template text later.tree := by
  induction h with
  | finished => exact ho
  | failed turn => exact ho.ofEntries turn.failed_changed
  | done turn _ ih =>
    have hfirst := hstems _ List.mem_cons_self
    exact ih (fun entry he => hstems entry (List.mem_cons_of_mem _ he)) (turn.keeps hfirst ho)

/-- **What a template that is done leaves**, if no later one with its stem is done. -/
theorem Turns.output (h : Turns config outDir build templates done failure later)
    (hdone : done = before ++ (template, loaded) :: after)
    (hstems : ∀ entry ∈ after, outputStem entry.1 ≠ outputStem template) :
    Output outDir template loaded.text later.tree := by
  induction h generalizing before with
  | finished => exact absurd hdone (by simp)
  | failed => exact absurd hdone (by simp)
  | done turn rest ih =>
    cases before with
    | nil =>
      cases hdone
      obtain ⟨_, _, _, hwrote⟩ := turn.done_wrote
      exact rest.keeps hstems (.ofWrote hwrote)
    | cons first before =>
      exact ih (List.cons.inj hdone).2

/-- So it is at the end of the command. -/
theorem RunEnds.output {request : CompileRequest} {environment : Environment}
    (h : RunEnds request environment outDir tree done failure later)
    (hdone : done = before ++ (template, loaded) :: after)
    (hstems : ∀ entry ∈ after, outputStem entry.1 ≠ outputStem template) :
    Output outDir template loaded.text later.tree := by
  cases h with
  | unusable => exact absurd hdone (by simp)
  | unmade => exact absurd hdone (by simp)
  | turned _ _ turns => exact turns.output hdone hstems

end Step

/-- **What the directory holds** after templates were compiled into it. The templates have their turns until
    one fails, and all of them are done if nothing does. For every template that is done, the file under its
    stem holds the module of the last template with this stem that is done; so if the stems differ, every
    file holds the module of its own template. -/
theorem outputs_written {invocation : Invocation} {request : CompileRequest} {outDir : Path}
    (hcommand : invocation.command = .compile request) (hdir : request.outDir = some outDir)
    (environment : Environment) (tree : FileTree) :
    let outcome := invocation.run environment tree
    ∃ done later, RunEnds request environment outDir tree done outcome.failure later ∧
      outcome.tree = later.tree ∧
      done.map Prod.fst <+: request.templates ∧
      (outcome.failure = none → done.map Prod.fst = request.templates) ∧
      (∀ before template loaded after, done = before ++ (template, loaded) :: after →
        (∀ entry ∈ after, outputStem entry.1 ≠ outputStem template) →
        outcome.tree.readText (targetIn outDir template) = .ok loaded.text) ∧
      ((request.templates.map outputStem).Nodup → ∀ template loaded, (template, loaded) ∈ done →
        outcome.tree.readText (targetIn outDir template) = .ok loaded.text) := by
  intro outcome
  obtain ⟨done, later, ends, htree⟩ := Invocation.run_ends hcommand hdir environment tree
  obtain ⟨hfront, hall⟩ := ends.all_done
  have hlast (before : List (Path × Loaded)) (template : Path) (loaded : Loaded)
      (after : List (Path × Loaded)) (hdone : done = before ++ (template, loaded) :: after)
      (hstems : ∀ entry ∈ after, outputStem entry.1 ≠ outputStem template) :
      outcome.tree.readText (targetIn outDir template) = .ok loaded.text := by
    rw [htree]
    exact (ends.output hdone hstems).readText
  refine ⟨done, later, ends, htree, hfront, hall, hlast, fun hnodup template loaded hmem => ?_⟩
  obtain ⟨before, after, hdone⟩ := List.append_of_mem hmem
  refine hlast before template loaded after hdone fun entry hentry hsame => ?_
  have hstems : (done.map (outputStem ∘ Prod.fst)).Nodup := by
    rw [← List.map_map]
    exact hnodup.sublist (hfront.sublist.map outputStem)
  rw [hdone, List.map_append, List.map_cons, List.nodup_append] at hstems
  exact (List.nodup_cons.mp hstems.2.1).1 (List.mem_map.mpr ⟨entry, hentry, hsame⟩)

/-! ## 4. Two templates with one stem -/

section Step

variable {config : Config} {outDir template place : Path} {build later : Build} {source : String}
  {result : Except Failure Loaded} {written : String → FileTree}

/-- **A template that settles is compiled**, if there is no store and its module can be written. The module is
    blank exactly if the template is. -/
theorem Turn.done_of_settles (h : Turn config outDir template build (result, later))
    (hcache : config.cacheDir = none) (hruntime : config.runtime = none)
    (hplace : absolute build.tree template = .ok place)
    (hsource : build.tree.readText place = .ok source)
    (hsettles : ∀ registry journal, ∃ settled p, (loadJob config place build.tree).settle source registry
      journal = (.ok settled, p))
    (hwrites : ∀ text, build.tree.writeFile (targetIn outDir template) text = (.ok ⟨⟩, written text)) :
    ∃ loaded, result = .ok loaded ∧ later.tree = written loaded.text ∧
      (loaded.text = blankModule ↔ source = "") := by
  obtain ⟨loaded, middle, hload, hcompiled, htree⟩ := load_of_settles_unstored hcache hruntime (hsettles _)
  obtain ⟨_, seeded, settled, p, _, hsettle, _, _, hloaded⟩ := load_compiled hload hcompiled
  have hblank : loaded.text = blankModule ↔ source = "" := by
    rw [hloaded]
    refine (config.module_eq_blank settled.code place).trans ⟨fun hcode => ?_, ?_⟩
    · by_contra hs
      exact Job.code_ne_empty hs hsettle hcode
    · rintro rfl
      exact Job.code_of_empty hsettle
  rw [← loadFile_of_source hsource] at hload
  have hwrite := hwrites loaded.text
  rw [← htree] at hwrite
  cases h with
  | misplaced stands =>
    rw [hplace] at stands
    cases stands
  | unloaded stands load =>
    rw [hplace] at stands
    cases stands
    rw [hload] at load
    cases load
  | unwritten stands load write =>
    rw [hplace] at stands
    cases stands
    rw [hload] at load
    cases load
    rw [write] at hwrite
    cases hwrite
  | written stands load write told =>
    rw [hplace] at stands
    cases stands
    rw [hload] at load
    cases load
    rw [write] at hwrite
    cases hwrite
    exact ⟨_, rfl, told.tree, hblank⟩

/-- Then it is the turn of the others. -/
theorem Turns.next_of_settles {templates : List Path} {done : List (Path × Loaded)}
    {failure : Option Failure}
    (h : Turns config outDir build (template :: templates) done failure later)
    (hcache : config.cacheDir = none) (hruntime : config.runtime = none)
    (hplace : absolute build.tree template = .ok place)
    (hsource : build.tree.readText place = .ok source)
    (hsettles : ∀ registry journal, ∃ settled p, (loadJob config place build.tree).settle source registry
      journal = (.ok settled, p))
    (hwrites : ∀ text, build.tree.writeFile (targetIn outDir template) text = (.ok ⟨⟩, written text)) :
    ∃ loaded middle others, done = (template, loaded) :: others ∧ middle.tree = written loaded.text ∧
      (loaded.text = blankModule ↔ source = "") ∧
      Turns config outDir middle templates others failure later := by
  cases h with
  | failed turn =>
    obtain ⟨_, hok, _⟩ := turn.done_of_settles hcache hruntime hplace hsource hsettles hwrites
    cases hok
  | done turn rest =>
    obtain ⟨loaded, hok, htree, hblank⟩ :=
      turn.done_of_settles hcache hruntime hplace hsource hsettles hwrites
    cases hok
    exact ⟨_, _, _, rfl, htree, hblank, rest⟩

end Step

/-- Two directories with a template each, of the same name, and a directory for their modules. -/
def namesakes : FileTree :=
  let first := (({} : FileTree).insertAt ["a"] (.dir 0)).insertAt ["a", "p.hbs"] (.file (.ofText "x") 0)
  let second := (first.insertAt ["b"] (.dir 0)).insertAt ["b", "p.hbs"] (.file (.ofText "") 0)
  second.insertAt ["out"] (.dir 0)

/-- Both are to be compiled. -/
def compileNamesakes : CompileRequest where
  templates := [⟨"a/p.hbs"⟩, ⟨"b/p.hbs"⟩]
  outDir := some ⟨"out"⟩

/-- Everything is there that is needed to compile them. -/
theorem compiles_namesakes (environment : Environment) :
    compileNamesakes.configIn environment namesakes = .ok {} ∧ namesakes.hasDir ⟨"out"⟩ = true ∧
    namesakes.target ⟨"out/p.js"⟩ = .ok (["out"], "p.js".toList, false) ∧
    namesakes.readText ⟨"/a/p.hbs"⟩ = .ok "x" ∧ namesakes.readText ⟨"/b/p.hbs"⟩ = .ok "" := by
  refine ⟨?_, by decide +kernel, rfl, ?_, ?_⟩
  · have hnone : namesakes.hasFile usualConfigFile = false := by decide +kernel
    unfold configIn allOptions fileOptions
    rw [hnone]
    rfl
  · refine FileTree.readText_eq_ok.mpr ⟨["a", "p.hbs"], _, 0, rfl, ?_, FileTree.text?_ofText "x"⟩
    simp [namesakes, FileTree.entryAt?_insertAt]
  · refine FileTree.readText_eq_ok.mpr ⟨["b", "p.hbs"], _, 0, rfl, ?_, FileTree.text?_ofText ""⟩
    simp [namesakes, FileTree.entryAt?_insertAt]

/-- There is nothing in the directory yet. -/
theorem out_namesakes (name : String) (place : Location) :
    namesakes.entryAt? ("out" :: name :: place) = none := by
  have hempty : FileTree.entryAt? {} ("out" :: name :: place) = none := by simp [FileTree.entryAt?]
  simp [namesakes, FileTree.entryAt?_insertAt, hempty]

/-- A module can be written for each of them, in the same place, whatever else is written. -/
theorem write_namesakes {places : Location → Prop} {tree : FileTree} (hc : Changed places namesakes tree)
    (hfree : ∀ modified, tree.entryAt? ["out", "p.js"] ≠ some (.dir modified)) (text : String) :
    tree.writeFile ⟨"out/p.js"⟩ text =
      (.ok ⟨⟩, tree.insertAt ["out", "p.js"] (.file (.ofText text) tree.now)) := by
  obtain ⟨_, hdir, htarget, _⟩ := compiles_namesakes []
  have hparent : FileTree.dirOf ⟨"out/p.js"⟩ = ⟨"out"⟩ := by decide +kernel
  refine FileTree.writeFile_of_target ?_ (hc.target htarget) (by decide) (by decide) hfree text
  rw [hparent]
  exact hc.hasDir hdir

/-- The files with a module in the directory. -/
def withModule (tree : FileTree) (text : String) : FileTree :=
  tree.insertAt ["out", "p.js"] (.file (.ofText text) 0)

/-- Both have their turns, and what remains is the module of the second one. -/
theorem turns_namesakes {done : List (Path × Loaded)} {failure : Option Failure} {later : Build}
    (h : Turns {} ⟨"out"⟩ { tree := namesakes } [⟨"a/p.hbs"⟩, ⟨"b/p.hbs"⟩] done failure later) :
    failure = none ∧ ∃ first second, done = [(⟨"a/p.hbs"⟩, first), (⟨"b/p.hbs"⟩, second)] ∧
      first.text ≠ second.text ∧ later.tree = withModule (withModule namesakes first.text) second.text := by
  obtain ⟨_, _, _, hfirst, hsecond⟩ := compiles_namesakes []
  have hfree (modified : Int) : namesakes.entryAt? ["out", "p.js"] ≠ some (.dir modified) := by
    rw [out_namesakes]
    nofun
  obtain ⟨first, middle, others, rfl, hmiddle, hmodule, hrest⟩ := h.next_of_settles rfl rfl rfl hfirst
    (fun registry journal => Job.settles_content _ _ registry journal)
    (write_namesakes (.refl namesakes : Changed nowhere _ _) hfree)
  have hchanged : Changed (· = ["out", "p.js"]) namesakes middle.tree :=
    hmiddle ▸ FileTree.changed_file (List.cons_ne_nil _ _) hfree (.ofText first.text) 0
  have hplace : absolute middle.tree ⟨"b/p.hbs"⟩ = absolute namesakes ⟨"b/p.hbs"⟩ := by
    unfold absolute
    rw [hchanged.cwd]
  have hsource : middle.tree.readText ⟨"/b/p.hbs"⟩ = .ok "" := by
    obtain ⟨place, content, modified, hplace, hentry, htext⟩ := FileTree.readText_eq_ok.mp hsecond
    have hother : place ≠ ["out", "p.js"] := by
      rintro rfl
      rw [out_namesakes] at hentry
      cases hentry
    exact FileTree.readText_eq_ok.mpr ⟨place, content, modified, hchanged.locate hplace,
      hchanged.same place _ hother hentry, htext⟩
  have hfile (modified : Int) : middle.tree.entryAt? ["out", "p.js"] ≠ some (.dir modified) := by
    rw [hmiddle, FileTree.entryAt?_insertAt (List.cons_ne_nil _ _), if_pos rfl]
    nofun
  obtain ⟨second, last, others, rfl, hlast, hblank, hrest⟩ := hrest.next_of_settles rfl rfl hplace hsource
    (fun registry journal => Job.settles_empty _ _ registry journal)
    (write_namesakes hchanged hfile)
  cases hrest
  have hdiffer : first.text ≠ second.text := by
    rw [hblank.mpr rfl]
    exact fun h => absurd (hmodule.mp h) (by decide)
  refine ⟨rfl, first, second, rfl, hdiffer, ?_⟩
  rw [hlast, hchanged.now, hmiddle]
  rfl

/-- The command comes to their turns. -/
theorem run_namesakes : let outcome := (⟨.compile compileNamesakes, false, false⟩ : Invocation).run [] namesakes
    ∃ first second later, outcome.failure = none ∧ outcome.tree = later.tree ∧
      Turns {} ⟨"out"⟩ { tree := namesakes } [⟨"a/p.hbs"⟩, ⟨"b/p.hbs"⟩]
        [(⟨"a/p.hbs"⟩, first), (⟨"b/p.hbs"⟩, second)] none later ∧
      first.text ≠ second.text ∧ later.tree = withModule (withModule namesakes first.text) second.text := by
  intro outcome
  obtain ⟨done, later, ends, htree⟩ :
      ∃ done later, RunEnds compileNamesakes [] ⟨"out"⟩ namesakes done outcome.failure later ∧
        outcome.tree = later.tree := Invocation.run_ends rfl rfl [] namesakes
  obtain ⟨hconfig, hdir, _⟩ := compiles_namesakes []
  have hmade := FileTree.ensureDir_of_hasDir hdir
  generalize outcome.failure = failure at ends ⊢
  cases ends with
  | unusable options =>
    rw [hconfig] at options
    cases options
  | unmade _ dir =>
    rw [hmade] at dir
    cases dir
  | turned options dir turns =>
    rw [hconfig] at options
    cases options
    rw [hmade] at dir
    cases dir
    obtain ⟨rfl, first, second, rfl, hdiffer, hlater⟩ := turns_namesakes turns
    exact ⟨first, second, later, rfl, htree, turns, hdiffer, hlater⟩

/-- There the module of the second template remains. -/
theorem outputs_written_namesakes :
    let invocation : Invocation := ⟨.compile compileNamesakes, false, false⟩
    invocation.command = .compile compileNamesakes ∧ compileNamesakes.outDir = some ⟨"out"⟩ ∧
      ∃ first second later, RunEnds compileNamesakes [] ⟨"out"⟩ namesakes
          [(⟨"a/p.hbs"⟩, first), (⟨"b/p.hbs"⟩, second)] none later ∧
        (invocation.run [] namesakes).tree.readText ⟨"out/p.js"⟩ = .ok second.text := by
  intro invocation
  have hcommand : invocation.command = .compile compileNamesakes := rfl
  have hdir : compileNamesakes.outDir = some ⟨"out"⟩ := rfl
  have hwritten := outputs_written hcommand hdir [] namesakes
  obtain ⟨_, _, _, hfailure, _⟩ := run_namesakes
  change (invocation.run [] namesakes).failure = none at hfailure
  generalize invocation.run [] namesakes = outcome at hwritten hfailure ⊢
  obtain ⟨done, later, ends, _, _, hall, hlast, _⟩ := hwritten
  rw [hfailure] at ends
  have hdone : done.map Prod.fst = [⟨"a/p.hbs"⟩, ⟨"b/p.hbs"⟩] := hall hfailure
  obtain ⟨⟨_, first⟩, rest, rfl, rfl, hrest⟩ := List.map_eq_cons_iff.mp hdone
  obtain ⟨⟨_, second⟩, rest, rfl, rfl, hnone⟩ := List.map_eq_cons_iff.mp hrest
  obtain rfl := List.map_eq_nil_iff.mp hnone
  have htarget : targetIn ⟨"out"⟩ ⟨"b/p.hbs"⟩ = ⟨"out/p.js"⟩ := by decide +kernel
  have hread := hlast [(⟨"a/p.hbs"⟩, first)] ⟨"b/p.hbs"⟩ second [] rfl nofun
  rw [htarget] at hread
  exact ⟨hcommand, hdir, first, second, later, ends, hread⟩

/-- **Two templates with one stem**: both are compiled and nothing fails, but no file in the directory holds
    the module of the first one. -/
theorem outputs_collide :
    let outcome := (⟨.compile compileNamesakes, false, false⟩ : Invocation).run [] namesakes
    compileNamesakes.templates.Nodup ∧ outcome.failure = none ∧ ∃ first second later,
      Turns {} ⟨"out"⟩ { tree := namesakes } [⟨"a/p.hbs"⟩, ⟨"b/p.hbs"⟩]
        [(⟨"a/p.hbs"⟩, first), (⟨"b/p.hbs"⟩, second)] none later ∧ outcome.tree = later.tree ∧
      ∀ place content modified, outcome.tree.entryAt? ("out" :: place) = some (.file content modified) →
        content.text? ≠ some first.text := by
  intro outcome
  obtain ⟨first, second, later, hfailure, htree, hturns, hdiffer, hlater⟩ := run_namesakes
  refine ⟨by decide, hfailure, first, second, later, hturns, htree, fun place content modified hentry => ?_⟩
  rw [htree, hlater, withModule, FileTree.entryAt?_insertAt (List.cons_ne_nil _ _)] at hentry
  split at hentry
  · cases hentry
    rw [FileTree.text?_ofText]
    exact fun h => hdiffer (Option.some.inj h).symm
  · rename_i hother
    rw [withModule, FileTree.entryAt?_insertAt (List.cons_ne_nil _ _), if_neg hother] at hentry
    cases place with
    | nil =>
      have hdir : namesakes.entryAt? ["out"] = some (.dir 0) := by
        simp [namesakes, FileTree.entryAt?_insertAt]
      rw [hdir] at hentry
      cases hentry
    | cons name place =>
      rw [out_namesakes] at hentry
      cases hentry

end Stache
