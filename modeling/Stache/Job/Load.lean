import Stache.Job.Emission
import Stache.Job.ModuleStore
import Stache.Job.Settling
import Stache.Search.HelperScan
import Stache.Search.Module
import Stache.Search.Suggestion
import Stache.Text.Digit

/-!
# Loading templates

One job for one template: a stored module is served if there is a fresh one; otherwise the revision of the
runtime is checked, the helpers that are known from the start are made known, the template is settled, and
its module is emitted and stored.

All jobs of a build share what is known about helpers.
-/

namespace Stache

/-- What the jobs of a build change. -/
structure Build where
  /-- The files. -/
  tree : FileTree
  /-- What is known about helpers. -/
  registry : Registry := {}
  /-- What happened. -/
  journal : Journal := []

/-- The result of a job. -/
structure Loaded where
  /-- The text of the module. -/
  text : String
  /-- The files that the module loads. -/
  dependencies : List Path
  /-- The number of rounds; none for a stored module. -/
  passes : Nat
  /-- The module was stored. -/
  fromCache : Bool

/-- A computation of a build that may fail. What changed before the failure stays changed. -/
abbrev BuildM := ExceptT LoadError (StateM Build)

/-- Logs a message. -/
def logBuild (level : Level) (message : String) : BuildM Unit :=
  modify fun build => { build with journal := build.journal.log level message }

/-! ## 1. The revision of the runtime -/

/-- The number that digits spell, if it has thirty-two bits. Only the digits from `0` to `9` spell
    numbers. -/
def revisionOf? (digits : List Char) : Option Nat :=
  let n := digits.foldl (fun n c => 10 * n + (c.toNat - '0'.toNat)) 0
  if digits.all Char.isDigit ∧ n < Nat.pow 2 32 then some n else none

/-- The digits of an assignment behind the assigned name. -/
def assignedDigits? (text : List Char) : Option (List Char) :=
  match text.dropWhile Text.isBlank with
  | '=' :: text =>
    match (text.dropWhile Text.isBlank).takeWhile Text.isDigit with
    | [] => none
    | digits => some digits
  | _ => none

/-- The digits that are assigned to the name of the revision, the first time that some are. -/
def firstAssigned? : List Char → Option (List Char)
  | [] => none
  | c :: text =>
    match (Text.afterMark? "COMPILER_REVISION".toList (c :: text)).bind assignedDigits? with
    | some digits => some digits
    | none => firstAssigned? text

/-- The revision that the text of a runtime declares. -/
def declaredRevision? (text : String) : Option Nat :=
  (firstAssigned? text.toList).bind revisionOf?

/-- Compares the revision of the runtime with that of the specs. The usual runtime is not looked at. -/
def checkRuntime (config : Config) : BuildM Unit := do
  match config.runtime with
  | none => return
  | some runtime =>
    match (← get).tree.readText ⟨runtime⟩ with
    | .error error =>
      logBuild .debug ("Runtime " ++ runtime ++ " is not a readable file (" ++ error.message ++
        "); skipping version check")
    | .ok text =>
      match declaredRevision? text with
      | none => logBuild .debug ("Runtime " ++ runtime ++ " declares no COMPILER_REVISION")
      | some revision =>
        if revision ≠ specRevision then
          throw (.versionMismatch specRevision revision runtime)

/-! ## 2. Jobs -/

/-- Makes known the helpers of every runtime, those of the options, and those in directories. -/
def seedHelpers (config : Config) : BuildM Unit := do
  let build ← get
  let seeded := (builtinHelpers ++ config.knownHelpers).foldl Registry.insert build.registry
  let (count, registry, journal) :=
    scanHelpers build.tree config.helperExtension config.helperDirs seeded build.journal
  set { build with registry, journal }
  if count ≠ 0 then
    logBuild .debug ("Registered " ++ toString count ++ " helper(s) from helper directories")

/-- The directory of a template. -/
def templateDir (template : Path) : Path :=
  template.parent?.getD ⟨"."⟩

/-- How often the file system is asked about a partial that is nowhere: whether its candidates are files, in
    every directory and with every extension, and for the entries that suggestions are taken from. -/
def questionsAbout (plan : SearchPlan) (tree : FileTree) (rules : ModuleRules) (name : String) : Nat :=
  let looks := (plan.requests .partialTemplate name).flatMap fun request =>
    (plan.contexts .partialTemplate).map fun context =>
      tree.view.looks (rules.candidates context request)
  looks.foldl (· + ·) (plan.questionsToSuggest tree name)

/-- The search plan for a template. How long a search takes is told by the questions that it asks of the file
    system, as if each took the same time. -/
def searchPlan (config : Config) (tree : FileTree) (dir : Path) : SearchPlan :=
  let rules : ModuleRules := { directories := config.moduleDirectories }
  let plan : SearchPlan := { resolver := tree.moduleResolver rules, config, templateDir := dir }
  { plan with delay := questionsAbout plan tree rules }

/-- The job for a template in a directory. -/
def jobFor (compiler : Compiler) (config : Config) (tree : FileTree) (dir : Path) (name : String) :
    Job :=
  let plan := searchPlan config tree dir
  ⟨compiler, plan, name, plan.suggestions tree⟩

/-- Settles a template. -/
def settleTemplate (config : Config) (source : String) (template : Path) : BuildM Settled := do
  let build ← get
  let job := jobFor templateCompiler config build.tree (templateDir template) template.storageForm
  let (result, progress) := job.settle source build.registry build.journal
  set { build with registry := progress.registry, journal := progress.journal }
  MonadExcept.ofExcept result

/-- Compiles a template and stores its module, if there is a store. -/
def compileTemplate (config : Config) (source : String) (template : Path) : BuildM Loaded := do
  checkRuntime config
  seedHelpers config
  let settled ← settleTemplate config source template
  let text := config.module settled.code template
  match config.cacheDir with
  | none => pure ()
  | some dir =>
    let build ← get
    let (result, tree) := ModuleStore.insert ⟨dir⟩ template text build.tree
    set { build with tree }
    let entry ← MonadExcept.ofExcept result
    logBuild .debug ("Cached " ++ template.storageForm ++ " as " ++ entry.text)
  return ⟨text, settled.table.dependencies, settled.passes, false⟩

/-- The stored module of a template. An entry that cannot be read counts as none. -/
def storedModule? (config : Config) (template : Path) : BuildM (Option String) := do
  match config.cacheDir with
  | none => return none
  | some dir =>
    let build ← get
    let (result, journal) := ModuleStore.lookup ⟨dir⟩ template build.tree build.journal
    set { build with journal }
    match result with
    | .ok found => return found
    | .error error =>
      logBuild .warn ("Ignoring unreadable cache entry for " ++ template.storageForm ++ ": " ++
        error.message)
      return none

/-- Loads a template with the given source. -/
def load (config : Config) (source : String) (template : Path) : BuildM Loaded := do
  match ← storedModule? config template with
  | some text =>
    logBuild .info ("Fetched HBS slug from cache: " ++ template.storageForm)
    return ⟨text, [], 0, true⟩
  | none => compileTemplate config source template

/-- Loads the template in a file. -/
def loadFile (config : Config) (template : Path) : BuildM Loaded := do
  match (← get).tree.readText template with
  | .ok source => load config source template
  | .error error =>
    throw (.fileSystem ("reading template (" ++ error.message ++ ")") template.text)

end Stache
