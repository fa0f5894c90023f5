import Stache.Decimal.Shortest
import Stache.Options.Query
import Stache.Text.Shown
import Stache.Toml.Reading

/-!
# Options

The options as the user writes them. None has to be given; where several sources give one, the last source
counts.
-/

namespace Stache

/-- A list of strings, or one string in its place. -/
inductive StringList where
  /-- One string. -/
  | one (value : String)
  /-- A list. -/
  | many (values : List String)
  deriving DecidableEq, Repr

namespace StringList

/-- The strings; one string is a list of itself. -/
def values : StringList → List String
  | .one value => [value]
  | .many values => values

/-- The strings; one string is split at spaces, commas and semicolons. -/
def splitValues : StringList → List String
  | .one value =>
    (value.toList.splitOnP fun c => c == ' ' || c == ',' || c == ';').map String.ofList
  | .many values => values

end StringList

/-- The options as they are written. -/
structure Options where
  /-- The directory of the module store. -/
  cache : Option String := none
  /-- The extensions that partials are tried with. -/
  extensions : Option StringList := none
  /-- What is put before the names of symbols. -/
  rootRelative : Option String := none
  /-- Names that are helpers. -/
  knownHelpers : Option StringList := none
  /-- Directories that hold helpers. -/
  helperDirs : Option StringList := none
  /-- Directories that hold partials. -/
  partialDirs : Option StringList := none
  /-- The extension of helpers. -/
  helperExtension : Option String := none
  /-- The pattern of texts that are loaded as modules. -/
  inlineRequires : Option String := none
  /-- The pattern of files that are not used. -/
  exclude : Option String := none
  /-- The request of the runtime module. -/
  runtime : Option String := none
  /-- More messages. -/
  debug : Option Bool := none
  /-- The root of the project. -/
  root : Option String := none
  /-- The names of directories that hold modules. -/
  moduleDirectories : Option StringList := none
  deriving DecidableEq, Repr

namespace Options

/-- The options of two sources; what the second one gives counts. -/
def merge (first second : Options) : Options where
  cache := second.cache.or first.cache
  extensions := second.extensions.or first.extensions
  rootRelative := second.rootRelative.or first.rootRelative
  knownHelpers := second.knownHelpers.or first.knownHelpers
  helperDirs := second.helperDirs.or first.helperDirs
  partialDirs := second.partialDirs.or first.partialDirs
  helperExtension := second.helperExtension.or first.helperExtension
  inlineRequires := second.inlineRequires.or first.inlineRequires
  exclude := second.exclude.or first.exclude
  runtime := second.runtime.or first.runtime
  debug := second.debug.or first.debug
  root := second.root.or first.root
  moduleDirectories := second.moduleDirectories.or first.moduleDirectories

/-! ## 1. Values of fields -/

/-- How a message names a value that is out of place. -/
def shownValue : Json → String
  | .null => "null"
  | .bool value => "boolean \x60" ++ (if value then "true" else "false") ++ "\x60"
  | .int value => "integer \x60" ++ toString value ++ "\x60"
  | .float value => "floating point \x60" ++ Decimal.text value ++ "\x60"
  | .str value => "string " ++ Text.shown value
  | .arr _ => "sequence"
  | .obj _ => "map"

/-- A string. -/
def stringOf : Json → Except OptionFault (Option String)
  | .null => .ok none
  | .str value => .ok (some value)
  | other => .error (.wrongType (shownValue other) "a string")

/-- A truth value. -/
def boolOf : Json → Except OptionFault (Option Bool)
  | .null => .ok none
  | .bool value => .ok (some value)
  | other => .error (.wrongType (shownValue other) "a boolean")

/-- The string that an item of a list is. -/
def itemOf : Json → Except OptionFault String
  | .str value => .ok value
  | _ => .error .notStrings

/-- A list of strings. -/
def listOf : Json → Except OptionFault (Option StringList)
  | .null => .ok none
  | .str value => .ok (some (.one value))
  | .arr items => do return some (.many (← items.mapM itemOf))
  | _ => .error .notStrings

/-! ## 2. Sources -/

/-- The options with the value of one more field. Fields that are no options are passed over. -/
def setField (options : Options) (key : String) (value : Json) : Except OptionFault Options :=
  match key with
  | "cache" => do return { options with cache := ← stringOf value }
  | "extensions" => do return { options with extensions := ← listOf value }
  | "rootRelative" => do return { options with rootRelative := ← stringOf value }
  | "knownHelpers" => do return { options with knownHelpers := ← listOf value }
  | "helperDirs" => do return { options with helperDirs := ← listOf value }
  | "partialDirs" => do return { options with partialDirs := ← listOf value }
  | "helperExtension" => do return { options with helperExtension := ← stringOf value }
  | "inlineRequires" => do return { options with inlineRequires := ← stringOf value }
  | "exclude" => do return { options with exclude := ← stringOf value }
  | "runtime" => do return { options with runtime := ← stringOf value }
  | "debug" => do return { options with debug := ← boolOf value }
  | "root" => do return { options with root := ← stringOf value }
  | "moduleDirectories" => do return { options with moduleDirectories := ← listOf value }
  | _ => .ok options

/-- The options that fields give; the first field in order of the keys that does not fit is at fault. -/
def ofFields (fields : Json.Fields) : Except OptionFault Options :=
  fields.foldlM (fun options (key, value) => options.setField key value) {}

/-- The options that a query gives. -/
def ofQuery (query : String) : Except OptionFault Options := do
  ofFields (← Query.parse query)

/-- The options that a document in TOML gives. -/
def ofToml (document : String) : Except OptionFault Options :=
  match Toml.read? document with
  | none => .error .malformedToml
  | some fields => (ofFields fields).mapError fun _ => .malformedToml

end Options

end Stache
