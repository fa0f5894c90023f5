import Stache.Files.Path
import Stache.Options.Basic
import Stache.Options.Expansion
import Stache.Pattern.Reading
import Stache.Report.LoadError

/-!
# Configuration

What the options mean: defaults are filled in, directories are expanded, patterns are read. The first
option that cannot be used, in the order in which `Config.ofOptions` looks at them, is at fault.
-/

namespace Stache

/-- Checked options. -/
structure Config where
  /-- The directory of the module store, if there is one. -/
  cacheDir : Option Path := none
  /-- The extensions that partials are tried with, in order. -/
  extensions : List String := [".handlebars", ".hbs", ""]
  /-- What is put before the names of symbols. -/
  rootRelative : String := "./"
  /-- Names that are helpers. -/
  knownHelpers : List String := []
  /-- Directories that hold helpers, in order. -/
  helperDirs : List Path := []
  /-- Directories that hold partials, in order. -/
  partialDirs : List Path := []
  /-- The extension of helpers. -/
  helperExtension : String := "js"
  /-- The pattern of texts that are loaded as modules. -/
  inlineRequires : Option Pattern := none
  /-- The pattern of files that are not used. -/
  exclude : Option Pattern := none
  /-- The request of the runtime module, if it is not the usual one. -/
  runtime : Option String := none
  /-- More messages. -/
  debug : Bool := false
  /-- The root of the project. -/
  root : Option String := none
  /-- The names of directories that hold modules. -/
  moduleDirectories : List String := ["node_modules"]

namespace Config

/-! ## 1. From options -/

/-- The error of a fault in an option. -/
def faultIn {α : Type} (option : String) (result : Except OptionFault α) : Except LoadError α :=
  result.mapError (.invalidOption option)

/-- An extension without its leading dots. It must not be empty and not lead into other directories. -/
def extensionOf (text : String) : Except OptionFault String :=
  let extension := text.toList.dropWhile (· == '.')
  if extension = [] || extension.any (· ∈ ['/', '\\', '*']) then
    .error (.notAnExtension (String.ofList extension))
  else .ok (String.ofList extension)

/-- An expanded option. -/
def expandOption (environment : Environment) (option : String) (text : Option String) :
    Except LoadError (Option String) :=
  text.mapM fun text => faultIn option (expand environment text)

/-- Expanded directories; empty names are passed over. -/
def expandDirs (environment : Environment) (option : String) (list : Option StringList) :
    Except LoadError (List Path) :=
  let names := (list.map StringList.values).getD []
  (names.filter (· ≠ "")).mapM fun name => do
    return ⟨← faultIn option (expand environment name)⟩

/-- A pattern that has been read; an empty one is none. -/
def readPattern (option : String) (text : Option String) : Except LoadError (Option Pattern) :=
  match text with
  | none | some "" => .ok none
  | some text =>
    match Pattern.read text with
    | .ok pattern => .ok (some pattern)
    | .error fault => .error (.invalidPattern option text fault.message)

/-- What the options mean. -/
def ofOptions (environment : Environment) (options : Options) : Except LoadError Config := do
  let defaults : Config := {}
  let helperExtension ← match options.helperExtension with
    | some text => faultIn "helperExtension" (extensionOf text)
    | none => pure defaults.helperExtension
  let cache ← expandOption environment "cache" options.cache
  let helperDirs ← expandDirs environment "helperDirs" options.helperDirs
  let partialDirs ← expandDirs environment "partialDirs" options.partialDirs
  let inlineRequires ← readPattern "inlineRequires" options.inlineRequires
  let exclude ← readPattern "exclude" options.exclude
  let runtime ← expandOption environment "runtime" options.runtime
  let root ← expandOption environment "root" options.root
  return {
    cacheDir := cache.map Path.mk
    extensions := (options.extensions.map StringList.splitValues).getD defaults.extensions
    rootRelative := options.rootRelative.getD defaults.rootRelative
    knownHelpers := (options.knownHelpers.map StringList.values).getD []
    helperDirs, partialDirs, helperExtension, inlineRequires, exclude, runtime
    debug := options.debug.getD false
    root
    moduleDirectories :=
      (options.moduleDirectories.map StringList.values).getD defaults.moduleDirectories }

/-! ## 2. What follows from it -/

/-- Once there are directories of helpers, no other helpers may be called. -/
def knownHelpersOnly (config : Config) : Bool :=
  !config.helperDirs.isEmpty

/-- The request of the runtime module. -/
def runtimeRequest (config : Config) : String :=
  config.runtime.getD "handlebars/runtime"

/-- The text is loaded as a module. -/
def loadsInline (config : Config) (text : String) : Bool :=
  (config.inlineRequires.map (·.isFoundIn text)).getD false

/-- The file is not used. -/
def excludes (config : Config) (path : Path) : Bool :=
  (config.exclude.map (·.isFoundIn path.storageForm)).getD false

end Config

end Stache
