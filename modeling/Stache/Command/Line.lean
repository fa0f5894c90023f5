import Stache.Command.Reading
import Stache.Files.Path
import Stache.Options.Basic

/-!
# The command line

What this program can be asked to do: compile templates, and look after a directory of stored modules.

* `commandLine` is the grammar;
* `Invocation.ofArguments` reads a command line.
-/

namespace Stache

/-! ## 1. Commands and keys -/

/-- The commands. -/
inductive CommandName where
  /-- The program itself. -/
  | program
  /-- Compiling templates. -/
  | compile
  /-- What can be done with a directory of stored modules. -/
  | cache
  /-- Removing stored modules. -/
  | cacheClean
  /-- Telling how many modules are stored. -/
  | cacheInfo
  deriving DecidableEq, Repr

/-- What values are for. -/
inductive CommandKey where
  /-- More messages. -/
  | verbose
  /-- No messages but errors. -/
  | quiet
  /-- The templates. -/
  | templates
  /-- The file with options. -/
  | config
  /-- The query with options. -/
  | query
  /-- The option `cache`. -/
  | cache
  /-- The option `extensions`. -/
  | extensions
  /-- The option `rootRelative`. -/
  | rootRelative
  /-- An item of the option `knownHelpers`. -/
  | knownHelper
  /-- An item of the option `helperDirs`. -/
  | helperDir
  /-- An item of the option `partialDirs`. -/
  | partialDir
  /-- The option `helperExtension`. -/
  | helperExtension
  /-- The option `inlineRequires`. -/
  | inlineRequires
  /-- The option `exclude`. -/
  | exclude
  /-- The option `runtime`. -/
  | runtime
  /-- The option `root`. -/
  | root
  /-- The option `debug`. -/
  | debug
  /-- The directory that modules are written to. -/
  | outDir
  /-- The directory of stored modules. -/
  | dir
  deriving DecidableEq, Repr

/-! ## 2. The grammar -/

/-- The variable of the environment that names the file with options. -/
def configVariable : String := "HBS_LOADER_CONFIG"

/-- The place of the file with options. -/
def configSlot : Slot CommandKey := { key := .config, nonEmpty := true }

/-- The commands below a command. -/
def commandsBelow : CommandName → List (String × CommandName)
  | .program => [("compile", .compile), ("cache", .cache)]
  | .cache => [("clean", .cacheClean), ("info", .cacheInfo)]
  | _ => []

/-- The options that every command has. -/
def sharedOptions : List (String × OptionMeaning CommandKey) :=
  [("help", .switch .help), ("verbose", .switch (.flag .verbose)), ("quiet", .switch (.flag .quiet))]

/-- The options for compiling. -/
def compileOptions : List (String × OptionMeaning CommandKey) :=
  [("config", .slot configSlot),
    ("query", .slot { key := .query, greedy := true }),
    ("cache", .slot { key := .cache }),
    ("extensions", .slot { key := .extensions, greedy := true }),
    ("root-relative", .slot { key := .rootRelative }),
    ("known-helper", .slot { key := .knownHelper, repeatable := true }),
    ("helper-dir", .slot { key := .helperDir, repeatable := true }),
    ("partial-dir", .slot { key := .partialDir, repeatable := true }),
    ("helper-extension", .slot { key := .helperExtension }),
    ("inline-requires", .slot { key := .inlineRequires }),
    ("exclude", .slot { key := .exclude }),
    ("runtime", .slot { key := .runtime }),
    ("root", .slot { key := .root }),
    ("debug", .switch (.flag .debug)),
    ("out-dir", .slot { key := .outDir, nonEmpty := true })]

/-- The options of a command. -/
def optionsOf : CommandName → List (String × OptionMeaning CommandKey)
  | .program => ("version", .switch .version) :: sharedOptions
  | .compile => sharedOptions ++ compileOptions
  | _ => sharedOptions

/-- The letters of a command. -/
def lettersOf : CommandName → List (Char × Switch CommandKey)
  | .program => [('V', .version), ('h', .help), ('v', .flag .verbose), ('q', .flag .quiet)]
  | _ => [('h', .help), ('v', .flag .verbose), ('q', .flag .quiet)]

/-- The words of a command. -/
def wordsOf : CommandName → Option (Slot CommandKey)
  | .compile => some { key := .templates, repeatable := true, nonEmpty := true }
  | .cacheClean | .cacheInfo => some { key := .dir, nonEmpty := true }
  | _ => none

/-- The grammar of the command line. -/
def commandLine : Grammar CommandName CommandKey where
  commands := commandsBelow
  options := optionsOf
  letters := lettersOf
  words := wordsOf
  required := fun command => ((wordsOf command).map Slot.key).toList
  exclusions := fun _ => [(.verbose, .quiet)]
  fallbacks := fun
    | .compile => [(configVariable, configSlot)]
    | _ => []

/-! ## 3. What is asked for -/

/-- Templates to compile, and how. -/
structure CompileRequest where
  /-- The templates. -/
  templates : List Path
  /-- The file with options, if it is not the usual one. -/
  config : Option Path := none
  /-- A query with options. -/
  query : Option String := none
  /-- The options on the command line. -/
  options : Options := {}
  /-- Where the modules are written, if they are not printed. -/
  outDir : Option Path := none
  deriving DecidableEq, Repr

/-- What the program is to do. -/
inductive Command where
  /-- Compile templates. -/
  | compile (request : CompileRequest)
  /-- Remove all modules that are stored in a directory. -/
  | cacheClean (dir : Path)
  /-- Tell how many modules are stored in a directory. -/
  | cacheInfo (dir : Path)
  deriving DecidableEq, Repr

/-- What the program is to do, and how much it tells. -/
structure Invocation where
  /-- What is to be done. -/
  command : Command
  /-- More messages are wanted. -/
  verbose : Bool := false
  /-- No messages but errors are wanted. -/
  quiet : Bool := false
  deriving DecidableEq, Repr

namespace CompileRequest

/-- A list of the values for a key, if there are any. -/
def listOf (given : Given CommandKey) (key : CommandKey) : Option StringList :=
  match given.values key with
  | [] => none
  | values => some (.many values)

/-- What is asked for when templates are compiled. -/
def ofGiven (given : Given CommandKey) : CompileRequest where
  templates := (given.values .templates).map Path.mk
  config := (given.value? .config).map Path.mk
  query := given.value? .query
  options := {
    cache := given.value? .cache
    extensions := (given.value? .extensions).map .one
    rootRelative := given.value? .rootRelative
    knownHelpers := listOf given .knownHelper
    helperDirs := listOf given .helperDir
    partialDirs := listOf given .partialDir
    helperExtension := given.value? .helperExtension
    inlineRequires := given.value? .inlineRequires
    exclude := given.value? .exclude
    runtime := given.value? .runtime
    root := given.value? .root
    debug := if given.has .debug then some true else none }
  outDir := (given.value? .outDir).map Path.mk

end CompileRequest

namespace Command

/-- What a command without commands below it does; the others do nothing themselves. -/
def ofGiven? : CommandName × Given CommandKey → Option Command
  | (.compile, given) => some (.compile (.ofGiven given))
  | (.cacheClean, given) => (given.value? .dir).map fun dir => .cacheClean ⟨dir⟩
  | (.cacheInfo, given) => (given.value? .dir).map fun dir => .cacheInfo ⟨dir⟩
  | _ => none

end Command

namespace Invocation

/-- What a command line asks for. The switches that all commands have count wherever they stand. -/
def ofArguments (environment : Environment) (arguments : List String) :
    Except UsageFault Invocation := do
  let levels ← commandLine.read environment .program arguments
  let isOn := fun key => levels.any fun (_, given) => given.has key
  match levels.getLast?.bind Command.ofGiven? with
  | some command => return ⟨command, isOn .verbose, isOn .quiet⟩
  | none => .error .commandMissing

end Invocation

end Stache
