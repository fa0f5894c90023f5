import Stache.Command.Line
import Stache.Job.Load
import Stache.Text.Size

/-!
# Running a command

A command works on files and prints. It stops at the first failure, and what it did before stays done.

* `CompileRequest.allOptions` gathers options: those of a file, then those of a query, then those of the
  command line; the later ones count;
* `CompileRequest.run` compiles templates in order, all as one build;
* `Invocation.run` runs a command.
-/

namespace Stache

/-! ## 1. Computations of a command -/

/-- What a command changes. -/
structure Session where
  /-- The files, what is known about helpers, and what happened. -/
  build : Build
  /-- What was printed. -/
  printed : String := ""

/-- A computation of a command that may fail. What changed before the failure stays changed. -/
abbrev CommandM := ExceptT Failure (StateM Session)

namespace CommandM

/-- Prints a line. -/
def printLine (text : String) : CommandM Unit :=
  modify fun session => { session with printed := session.printed ++ text ++ "\n" }

/-- A result that is there already. -/
def ofResult {α : Type} (result : Except LoadError α) : CommandM α :=
  MonadExcept.ofExcept (result.mapError fun error => Failure.ofCause (.load error))

/-- A computation of a build. -/
def ofBuild {α : Type} (job : BuildM α) : CommandM α := do
  let session ← get
  let (result, build) := job.run.run session.build
  set { session with build }
  ofResult result

/-- A change of the files. -/
def ofFiles {α : Type} (change : FileTree → Except Failure α × FileTree) : CommandM α := do
  let session ← get
  let (result, tree) := change session.build.tree
  set { session with build := { session.build with tree } }
  MonadExcept.ofExcept result

end CommandM

/-- The mark before what was done. -/
def doneMark : String := "✓"

/-! ## 2. Options -/

/-- The file that options are read from if no other is named. -/
def usualConfigFile : Path := ⟨"hbs-loader.toml"⟩

/-- The options in a file. -/
def Options.ofFile (tree : FileTree) (file : Path) : Except Failure Options :=
  match tree.readText file with
  | .error error =>
    .error ((Failure.ofCause (.io error)).addContext ("Failed to read config file: " ++ file.text))
  | .ok text =>
    (Options.ofToml text).mapError fun _ =>
      (Failure.ofCause .toml).addContext ("Failed to parse config file: " ++ file.text)

namespace CompileRequest

/-- The options in the file that is named or, if none is, in the usual one if it is there. -/
def fileOptions (request : CompileRequest) (tree : FileTree) : Except Failure Options :=
  match request.config with
  | some file => Options.ofFile tree file
  | none =>
    if tree.hasFile usualConfigFile then Options.ofFile tree usualConfigFile else .ok {}

/-- The options in the query, if there is one. -/
def queryOptions (request : CompileRequest) : Except Failure Options :=
  match request.query with
  | none => .ok {}
  | some query =>
    (Options.ofQuery query).mapError fun fault =>
      Failure.ofCause (.load (.invalidOption "query" fault))

/-- All options. -/
def allOptions (request : CompileRequest) (tree : FileTree) : Except Failure Options := do
  let options := (← request.fileOptions tree).merge (← request.queryOptions)
  return options.merge request.options

/-- The options ask for more messages. Options that cannot be read do not. -/
def wantsDebug (request : CompileRequest) (tree : FileTree) : Bool :=
  request.options.debug == some true ||
    match request.allOptions tree with
    | .ok options => options.debug == some true
    | .error _ => false

/-! ## 3. Compiling -/

/-- The file that the module of a template is written to. -/
def targetIn (outDir template : Path) : Path :=
  outDir.join ⟨template.fileStem?.getD "template" ++ ".js"⟩

/-- Where a template stands, from the root. -/
def absolute (tree : FileTree) (template : Path) : Except Failure Path :=
  if template.text = "" then
    .error ((Failure.ofCause (.io .emptyPath)).addContext
      ("Invalid template path: " ++ template.text))
  else .ok (template.absoluteFrom ⟨"/" ++ String.intercalate "/" tree.cwd⟩)

/-- Writes a module, and tells so. -/
def writeModule (quiet : Bool) (outDir template : Path) (loaded : Loaded) : CommandM Unit := do
  let target := targetIn outDir template
  CommandM.ofFiles fun tree => tree.writeFile target loaded.text
  CommandM.ofBuild (logBuild .info ("Wrote " ++ target.text))
  if !quiet then
    CommandM.printLine (doneMark ++ " " ++ template.text ++ " -> " ++ target.text ++
      if loaded.fromCache then " (cached)" else "")

/-- Compiles one template. -/
def runOne (request : CompileRequest) (quiet : Bool) (config : Config) (template : Path) :
    CommandM Unit := do
  let place ← MonadExcept.ofExcept (absolute (← get).build.tree template)
  let loaded ← CommandM.ofBuild (loadFile config place)
  CommandM.ofBuild (logBuild .debug ("Compiled " ++ place.text ++ " in " ++
    toString loaded.passes ++ " pass(es), " ++ toString loaded.dependencies.length ++
    " dependencies"))
  match request.outDir with
  | none => CommandM.printLine loaded.text
  | some outDir => writeModule quiet outDir template loaded

/-- Compiles the templates. -/
def run (request : CompileRequest) (environment : Environment) (quiet : Bool) : CommandM Unit := do
  if request.outDir = none ∧ 1 < request.templates.length then
    throw (.ofCause (.plain "--out-dir is required when compiling more than one template"))
  let options ← MonadExcept.ofExcept (request.allOptions (← get).build.tree)
  let config ← CommandM.ofResult (Config.ofOptions environment options)
  match request.outDir with
  | none => pure ()
  | some outDir => CommandM.ofFiles fun tree => tree.ensureDir outDir
  request.templates.forM (request.runOne quiet config)

end CompileRequest

/-! ## 4. Stored modules -/

namespace ModuleStore

/-- Removes all modules, and tells how many. -/
def runClean (store : ModuleStore) (quiet : Bool) : CommandM Unit := do
  let removed ← CommandM.ofFiles fun tree =>
    let (result, tree) := store.clean tree
    (result.mapError fun error => Failure.ofCause (.load error), tree)
  CommandM.ofBuild (logBuild .info ("Removed " ++ toString removed ++ " cache entries from " ++
    store.dir.text))
  if !quiet then
    CommandM.printLine (doneMark ++ " Removed " ++ toString removed ++ " cached module(s) from " ++
      store.dir.text)

/-- Tells how many modules are stored, and their size. -/
def runInfo (store : ModuleStore) : CommandM Unit := do
  let (count, bytes) := store.stats (← get).build.tree
  CommandM.printLine "Cache:"
  CommandM.printLine ("  Directory: " ++ store.dir.text)
  CommandM.printLine ("  Entries: " ++ toString count)
  CommandM.printLine ("  Size: " ++ Text.shownSize bytes)

end ModuleStore

/-! ## 5. All commands -/

/-- How much is logged. -/
inductive Verbosity where
  /-- What helps to find faults, too. -/
  | debug
  /-- What is worth knowing. -/
  | info
  /-- Errors alone. -/
  | error
  deriving DecidableEq, Repr

/-- How a verbosity is written. -/
def Verbosity.label : Verbosity → String
  | .debug => "debug"
  | .info => "info"
  | .error => "error"

/-- Messages of a level are logged. -/
def Verbosity.logs (verbosity : Verbosity) : Level → Bool
  | .trace => false
  | .debug => verbosity == .debug
  | .info | .warn => verbosity != .error

/-- What came of a command. -/
structure Outcome where
  /-- What it printed. -/
  printed : String
  /-- Why it failed, if it did. -/
  failure : Option Failure
  /-- The files after it. -/
  tree : FileTree
  /-- What happened. -/
  journal : Journal

namespace Invocation

/-- How much is logged. The command line counts before the options, and more before less. -/
def verbosity (invocation : Invocation) (tree : FileTree) : Verbosity :=
  let wantsDebug := match invocation.command with
    | .compile request => request.wantsDebug tree
    | _ => false
  if invocation.verbose || wantsDebug then .debug
  else if invocation.quiet then .error
  else .info

/-- The computation of a command. -/
def steps (invocation : Invocation) (environment : Environment) : CommandM Unit :=
  match invocation.command with
  | .compile request => request.run environment invocation.quiet
  | .cacheClean dir => ModuleStore.runClean ⟨dir⟩ invocation.quiet
  | .cacheInfo dir => ModuleStore.runInfo ⟨dir⟩

/-- Runs a command on files. -/
def run (invocation : Invocation) (environment : Environment) (tree : FileTree) : Outcome :=
  let (result, session) := (invocation.steps environment).run.run { build := { tree } }
  let failure := match result with
    | .ok () => none
    | .error failure => some failure
  ⟨session.printed, failure, session.build.tree, session.build.journal⟩

end Invocation

end Stache
