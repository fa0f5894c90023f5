import Stache.Command.Line

/-!
# Help

What the program tells about itself, and about a command line that it cannot run.
-/

namespace Stache

/-- The name of the program. -/
def programName : String := "hbs-loader"

/-- The version of the program. -/
def programVersion : String := "0.3.2"

/-- How options are shown in the help: one to a line. -/
def optionLines (options : List (String × OptionMeaning CommandKey)) : List String :=
  options.map fun (name, meaning) =>
    match meaning with
    | .switch _ => "  --" ++ name
    | .slot slot => "  --" ++ name ++ (if slot.repeatable then " <VALUE>..." else " <VALUE>")

/-- What the program tells about itself. -/
def helpText : String :=
  String.intercalate "\n"
    (["Compile Handlebars templates into modules with resolved partials and helpers", "",
        "Usage: " ++ programName ++ " [OPTIONS] <COMMAND>", "",
        "Commands:",
        "  compile <TEMPLATE>...  Compile templates into modules",
        "  cache clean <DIR>      Remove every cached module from a cache directory",
        "  cache info <DIR>       Show the number and size of cached modules",
        "", "Options of every command:"] ++
      optionLines sharedOptions ++ ["", "Options of compile:"] ++ optionLines compileOptions)

namespace UsageFault

/-- The user asked for what is told, so nothing failed. -/
def isAnswer : UsageFault → Bool
  | .helpWanted | .versionWanted => true
  | _ => false

/-- What is told. -/
def message : UsageFault → String
  | .helpWanted | .nothingGiven => helpText
  | .versionWanted => programName ++ " " ++ programVersion
  | .commandMissing => "error: a command is missing"
  | .argumentMissing => "error: a required argument is missing"
  | .unknownArgument => "error: unexpected argument"
  | .unknownCommand => "error: unknown command"
  | .badValue => "error: a value is missing or empty"
  | .tooManyValues => "error: a value for an option that takes none"
  | .conflict => "error: an argument was given twice, or with one that excludes it"

end UsageFault

end Stache
