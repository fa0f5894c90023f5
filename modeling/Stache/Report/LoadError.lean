import Stache.Options.Fault
import Stache.Template.Fault

/-!
# Errors of a job

Everything that makes a job or the reading of its options fail, one constructor per cause, with the
wording in `LoadError.message`.
-/

namespace Stache

/-- Why a job fails. -/
inductive LoadError where
  /-- The runtime executes specs of another revision. -/
  | versionMismatch (compiler runtime : Nat) (runtimePath : String)
  /-- The template is rejected. -/
  | templateSyntax (template : String) (error : SyntaxError)
  /-- A partial is nowhere; files with similar names are suggested. -/
  | partialNotFound (name : String) (suggestions : List String)
  /-- An option has a value that cannot be used. -/
  | invalidOption (option : String) (fault : OptionFault)
  /-- A pattern among the options does not read. -/
  | invalidPattern (option pattern reason : String)
  /-- The module store cannot be read or written. -/
  | cache (path reason : String)
  /-- A file that the job needs cannot be read. -/
  | fileSystem (operation path : String)
  /-- Any other failure. -/
  | other (message : String)
  deriving DecidableEq, Repr

/-- The wording of an error. -/
def LoadError.message : LoadError → String
  | .versionMismatch compiler runtime path =>
    "Handlebars compiler version does not match runtime version (compiler revision " ++
      toString compiler ++ ", runtime revision " ++ toString runtime ++ " in " ++ path ++ ")"
  | .templateSyntax template error =>
    "Template syntax error in " ++ template ++ ": " ++ error.display
  | .partialNotFound name _ => "Partial '" ++ name ++ "' not found"
  | .invalidOption option fault =>
    "Invalid value for option '" ++ option ++ "': " ++ fault.message
  | .invalidPattern option _ reason =>
    "Invalid regular expression for option '" ++ option ++ "': " ++ reason
  | .cache path reason => "Cache operation failed for " ++ path ++ ": " ++ reason
  | .fileSystem operation path => "File system error during " ++ operation ++ ": " ++ path
  | .other message => message

end Stache
