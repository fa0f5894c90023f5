import Stache.Config
import Stache.Search.Probe
import Stache.Symbol.Request

/-!
# The search for symbols

A symbol is looked for in an ordered list of directories: that of the template first, then those that the
options name for its kind. Partials are tried with every extension, and the extension counts more than
the directory: a file with an earlier extension in a later directory comes first.

A file that is excluded is passed over as if it were not there, and so is a place that cannot be looked
at.
-/

namespace Stache

/-- What the search for the symbols of one template depends on. -/
structure SearchPlan where
  /-- Answers the probes. -/
  resolver : ModuleResolver
  /-- The configuration. -/
  config : Config
  /-- The directory of the template. -/
  templateDir : Path
  /-- How long it takes until a partial that is nowhere is given up, suggestions included. -/
  delay : String → Nat := fun _ => 0

namespace SearchPlan

/-- The directories in which symbols of a kind are looked for, in order. -/
def contexts (plan : SearchPlan) (kind : SymbolKind) : List Path :=
  plan.templateDir ::
    match kind with
    | .partialTemplate => plan.config.partialDirs
    | .helper | .ambiguous => plan.config.helperDirs

/-- What is looked for. -/
def requestFor (plan : SearchPlan) (kind : SymbolKind) (name : String) : String :=
  (NameReference.ofName name).requestFor kind plan.config.rootRelative
    (!plan.config.helperDirs.isEmpty)

/-- Looks for a request in directories, one after the other. -/
def searchContexts (plan : SearchPlan) (kind : SymbolKind) (request : String) (journal : Journal) :
    List Path → Option Path × Journal
  | [] =>
    (none, journal.logIf plan.config.debug .debug
      ("Failed to resolve " ++ kind.label ++ " " ++ request))
  | context :: contexts =>
    let debug := plan.config.debug
    let journal := journal.logIf debug .debug
      ("Attempting to resolve " ++ kind.label ++ " " ++ request ++ " in " ++ context.text)
    match plan.resolver.probe context request journal with
    | (.error error, journal) =>
      plan.searchContexts kind request (journal.log .trace error.message) contexts
    | (.ok path, journal) =>
      if plan.config.excludes path then
        plan.searchContexts kind request
          (journal.logIf debug .debug ("Excluding " ++ kind.label ++ " " ++ path.storageForm)) contexts
      else
        (some path, journal.logIf debug .debug
          ("Resolved " ++ kind.label ++ " " ++ request ++ " to " ++ path.storageForm))

/-- Looks for requests, each in all directories, one after the other. -/
def searchRequests (plan : SearchPlan) (kind : SymbolKind) (journal : Journal) :
    List String → Option Path × Journal
  | [] => (none, journal)
  | request :: requests =>
    match plan.searchContexts kind request journal (plan.contexts kind) with
    | (some path, journal) => (some path, journal)
    | (none, journal) => plan.searchRequests kind journal requests

/-- The requests that a symbol is looked for with, in order: one for each extension of a partial. -/
def requests (plan : SearchPlan) (kind : SymbolKind) (name : String) : List String :=
  let request := plan.requestFor kind name
  match kind with
  | .partialTemplate => plan.config.extensions.map (request ++ ·)
  | .helper | .ambiguous => [request]

/-- Looks for a symbol. -/
def search (plan : SearchPlan) (kind : SymbolKind) (name : String) (journal : Journal) :
    Option Path × Journal :=
  plan.searchRequests kind (journal.search kind name) (plan.requests kind name)

/-- Looks for symbols of one kind, one after the other. -/
def searchAll (plan : SearchPlan) (kind : SymbolKind) (journal : Journal) :
    List String → List (String × Option Path) × Journal
  | [] => ([], journal)
  | name :: names =>
    let (found, journal) := plan.search kind name journal
    let (others, journal) := plan.searchAll kind journal names
    ((name, found) :: others, journal)

end SearchPlan

end Stache
