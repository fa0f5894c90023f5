import Stache.Files.IoError
import Stache.Report.LoadError

/-!
# Reports

How a failure is told to the user. A failure is a cause inside contexts that say what was being done; a
report is an error with a hint and an explanation.
-/

namespace Stache

/-! ## 1. Failures -/

/-- What lies at the bottom of a failure. -/
inductive Cause where
  /-- An error of a job. -/
  | load (error : LoadError)
  /-- A failure of the file system. -/
  | io (error : IoError)
  /-- A document in TOML that cannot be used. -/
  | toml
  /-- Any other cause. -/
  | plain (message : String)
  deriving DecidableEq, Repr

/-- The wording of a cause. -/
def Cause.message : Cause → String
  | .load error => error.message
  | .io error => error.message
  | .toml => OptionFault.malformedToml.message
  | .plain message => message

/-- A cause inside contexts. -/
structure Failure where
  /-- What was being done, the outermost context first. -/
  contexts : List String
  /-- The cause. -/
  cause : Cause
  deriving DecidableEq, Repr

namespace Failure

/-- The failure of a cause alone. -/
def ofCause (cause : Cause) : Failure := ⟨[], cause⟩

/-- The failure inside one more context. -/
def addContext (failure : Failure) (context : String) : Failure :=
  ⟨context :: failure.contexts, failure.cause⟩

/-- The wordings from the outermost context to the cause. -/
def messages (failure : Failure) : List String :=
  failure.contexts ++ [failure.cause.message]

/-- The wordings on one line. -/
def chain (failure : Failure) : String :=
  String.intercalate ": " failure.messages

/-- The outermost wording, and the others as a numbered list. -/
def explained (failure : Failure) : String :=
  match failure.messages with
  | [] => ""
  | [message] => message
  | message :: causes =>
    message ++ "\n\nCaused by:" ++
      String.join ((causes.zipIdx 1).map fun (cause, n) => "\n  " ++ toString n ++ ": " ++ cause)

end Failure

/-! ## 2. Reports -/

/-- An error with a hint and an explanation. -/
structure Report where
  /-- The error. -/
  error : LoadError
  /-- What to do about it. -/
  suggestion : Option String := none
  /-- Why it matters. -/
  details : Option String := none
  deriving DecidableEq, Repr

namespace Report

/-- The report of an error of a job. -/
def ofError (error : LoadError) : Report :=
  match error with
  | .versionMismatch .. => {
      error
      suggestion := "Install a runtime that matches the compiler or point the \x60runtime\x60 option at a compatible build"
      details := "Templates compiled for one revision cannot be executed by a runtime of another revision" }
  | .templateSyntax .. => {
      error
      suggestion := "Check that every \x7b\x7b#block\x7d\x7d has a matching \x7b\x7b/block\x7d\x7d and that all mustaches are closed" }
  | .partialNotFound _ suggestions => {
      error
      suggestion :=
        if suggestions.isEmpty then
          "Check the partial name, the \x60extensions\x60 option and the \x60partialDirs\x60 option"
        else "Did you mean: " ++ String.intercalate ", " suggestions ++ "?"
      details := "Partials are searched relative to the template directory with every configured extension" }
  | .invalidPattern .. => {
      error
      suggestion := "Patterns use Rust regex syntax; escape literal dots and slashes" }
  | .cache .. => {
      error
      suggestion := "Remove the cache directory with \x60hbs-loader cache clean <DIR>\x60 and retry" }
  | error => { error }

/-- The report of a failure of the file system that is told apart. -/
def ofIo? (error : IoError) : Option Report :=
  match error.kind with
  | .permissionDenied => some {
      error := .fileSystem "file access" "unknown"
      suggestion := "Check file ownership and permissions of the template and cache directories"
      details := "The loader could not read or write a file it needs" }
  | .notFound => some {
      error := .fileSystem "file access" "unknown"
      suggestion := "Check that the template file exists and the path is correct" }
  | .other => none

/-- The report of a failure: the cause decides, whatever the contexts; a cause without a report of its
    own is told with its contexts. -/
def ofFailure (failure : Failure) : Report :=
  match failure.cause with
  | .load error => ofError error
  | .toml => {
      error := .invalidOption "config" .malformedToml
      suggestion := "Check the TOML syntax of the loader configuration file" }
  | .io error => (ofIo? error).getD { error := .other failure.explained }
  | .plain _ => { error := .other failure.explained }

/-- The report with another hint. -/
def withSuggestion (report : Report) (text : String) : Report :=
  { report with suggestion := some text }

/-- The report with another explanation. -/
def withDetails (report : Report) (text : String) : Report :=
  { report with details := some text }

/-- A line that is there only when there is something to say. -/
def labelled (label : String) (text : Option String) : List String :=
  (text.map fun text => label ++ ": " ++ text).toList

/-- The report as one text. -/
def text (report : Report) : String :=
  String.intercalate "\n" (report.error.message ::
    (labelled "Details" report.details ++ labelled "Suggestion" report.suggestion))

/-- The report as it is printed. -/
def printed (report : Report) : String :=
  String.join ((("error: " ++ report.error.message) ::
    (labelled "details" report.details ++ labelled "suggestion" report.suggestion)).map (· ++ "\n"))

end Report

end Stache
