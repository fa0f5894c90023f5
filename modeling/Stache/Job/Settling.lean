import Stache.Search.Symbol
import Stache.Spec.Compilation
import Stache.Symbol.Naming
import Stache.Text.Compact

/-!
# Settling a template

A template is compiled again and again until nothing new is found. Each round compiles with what the
symbol table says, then looks for the symbols that nobody has looked for: helpers, ambiguous names,
partials. If anything was found, the code has to be made anew.

* A helper that is nowhere is no error; its name stays as it is.
* An ambiguous name that was looked for as a helper is not looked for again.
* A partial that is nowhere ends the job, and so does a template that is rejected.

The symbols of a kind are looked for side by side. Where that cannot be told, the searches are written one
after the other; it can be told when some partials are nowhere, by which of them is reported.

A symbol is looked for once, so a round that finds something leaves fewer symbols to look for.
-/

namespace Stache

/-- What the rounds of a job change. -/
structure Progress where
  /-- The symbols of the template. -/
  table : SymbolTable := {}
  /-- What the build knows about helpers. -/
  registry : Registry := {}
  /-- What happened. -/
  journal : Journal := []
  /-- The number of rounds that were begun. -/
  passes : Nat := 0

/-- What a job depends on. -/
structure Job where
  /-- The compiler. -/
  compiler : Compiler
  /-- How symbols are looked for. -/
  plan : SearchPlan
  /-- The name of the template. -/
  name : String
  /-- Names that are close to that of a partial. -/
  suggest : String → List String

/-- A settled template. -/
structure Settled where
  /-- The compacted code of the last round. -/
  code : String
  /-- The symbols. -/
  table : SymbolTable
  /-- The number of rounds. -/
  passes : Nat

namespace Progress

/-- One more message. -/
def log (p : Progress) (level : Level) (message : String) : Progress :=
  { p with journal := p.journal.log level message }

/-- One more message, if it is wanted. -/
def logIf (p : Progress) (wanted : Bool) (level : Level) (message : String) : Progress :=
  { p with journal := p.journal.logIf wanted level message }

end Progress

/-! ## 1. Compiling -/

/-- How a message names a kind of lookup. -/
def LookupKind.label : LookupKind → String
  | .partialTemplate => "Partial"
  | .helper => "Helper"
  | .context => "Context"
  | .data => "Data"

/-- The message about a reference: names are worth one. -/
def referenceMessage? : Reference → Option String
  | .symbol kind parent name =>
    some ("nameLookup " ++ parent.text ++ " " ++ name ++ " " ++ kind.label)
  | _ => none

namespace Job

/-- The configuration of a job. -/
def config (job : Job) : Config := job.plan.config

/-- Answers a reference. -/
def answer (job : Job) (reference : Reference) (p : Progress) : Option String × Progress :=
  let p := match referenceMessage? reference with
    | some message => p.logIf job.config.debug .debug message
    | none => p
  let (code, table) := Stache.answer p.registry job.config.loadsInline reference p.table
  (code, { p with table })

/-- Compiles the template once. -/
def compile (job : Job) (source : String) (p : Progress) :
    Except LoadError String × Progress :=
  if source = "" then (.ok "", p)
  else
    let hints : Hints := ⟨job.config.knownHelpersOnly, p.registry.known⟩
    match (job.compiler p.passes hints source).run job.answer p with
    | (.ok code, p) => (.ok (Text.compact code), p)
    | (.error error, p) => (.error (.templateSyntax job.name error), p)

/-! ## 2. Searching -/

/-- Looks for all symbols of a kind in a list. -/
def searchAll (job : Job) (kind : SymbolKind) (names : List String) (p : Progress) :
    List (String × Option Path) × Progress :=
  let (results, journal) := job.plan.searchAll kind p.journal names
  (results, { p with journal })

/-- Records whether a helper was found. -/
def noteHelper (p : Progress) (result : String × Option Path) : Progress :=
  match result with
  | (name, some path) =>
    { p with
      registry := p.registry.record name path
      table := p.table.markResolved .helper name path }
  | (name, none) => { p with table := p.table.markUnresolved .helper name }

/-- Records whether an ambiguous name was found. -/
def noteAmbiguous (p : Progress) (result : String × Option Path) : Progress :=
  match result with
  | (name, some path) =>
    { p with
      registry := p.registry.record name path
      table := p.table.promote name path }
  | (name, none) => { p with table := p.table.markUnresolved .ambiguous name }

/-- Something was found. -/
def anyFound (results : List (String × Option Path)) : Bool :=
  results.any fun (_, found) => found.isSome

/-- Looks for the pending helpers, and tells whether any was found. -/
def searchHelpers (job : Job) (p : Progress) : Bool × Progress :=
  let (results, p) := job.searchAll .helper (p.table.pending .helper) p
  (anyFound results, results.foldl noteHelper p)

/-- What is known about an ambiguous name from the search for the helper of that name. -/
def reuse (table : SymbolTable) (name : String) : SymbolTable :=
  match table.path? .helper name with
  | some path => table.promote name path
  | none =>
    if table.isAttempted .helper name then table.markUnresolved .ambiguous name else table

/-- Looks for the pending ambiguous names, and tells whether any was found. Those that were looked for
    as helpers take the outcome. -/
def searchAmbiguous (job : Job) (p : Progress) : Bool × Progress :=
  let pending := p.table.pending .ambiguous
  let reused := pending.any fun name => (p.table.path? .helper name).isSome
  let unsearched := pending.filter fun name => !p.table.isAttempted .helper name
  let (results, p) := job.searchAll .ambiguous unsearched
    { p with table := pending.foldl reuse p.table }
  (reused || anyFound results, results.foldl noteAmbiguous p)

/-- Records where a partial was found. -/
def notePartial (p : Progress) (result : String × Option Path) : Progress :=
  match result with
  | (name, some path) => { p with table := p.table.markResolved .partialTemplate name path }
  | (_, none) => p

/-- The names that were not found. -/
def missed (results : List (String × Option Path)) : List String :=
  (results.filter fun (_, found) => found.isNone).map (·.1)

/-- Looks for the pending partials, and tells whether there were any. All searches are begun at once, and the
    first that comes to nothing ends the job: what the others would have come to is not waited for. Of
    those that take equally long it is the first in order. -/
def searchPartials (job : Job) (p : Progress) : Except LoadError Bool × Progress :=
  let (results, p) := job.searchAll .partialTemplate (p.table.pending .partialTemplate) p
  match (missed results).minOn? job.plan.delay with
  | some name => (.error (.partialNotFound name (job.suggest name)), p)
  | none => (.ok !results.isEmpty, results.foldl notePartial p)

/-! ## 3. Rounds -/

/-- Notes that the job comes to a new stage. -/
def enter (job : Job) (stage : String) (p : Progress) : Progress :=
  p.log .trace (job.name ++ ": " ++ stage)

/-- One round: the code, and whether anything was found that the code does not know yet. -/
def round (job : Job) (source : String) (p : Progress) :
    Except LoadError (String × Bool) × Progress :=
  let p := job.enter "Compiling" { p with passes := p.passes + 1 }
  let p := p.logIf job.config.debug .debug
    ("Compilation pass " ++ toString p.passes ++ " for " ++ job.name)
  match job.compile source p with
  | (.error error, p) => (.error error, p)
  | (.ok code, p) =>
    let (foundHelper, p) := job.searchHelpers (job.enter "ResolvingHelpers" p)
    let (foundAmbiguous, p) := job.searchAmbiguous (job.enter "ResolvingAmbiguous" p)
    match job.searchPartials (job.enter "ResolvingPartials" p) with
    | (.error error, p) => (.error error, p)
    | (.ok foundPartial, p) => (.ok (code, foundHelper || foundAmbiguous || foundPartial), p)

/-- The end of a job whose last round found nothing. -/
def finish (job : Job) (code : String) (p : Progress) : Settled × Progress :=
  let p := job.enter "Done" p
  (⟨code, p.table, p.passes⟩, p.log .debug
    ("Compiled " ++ job.name ++ " in " ++ toString p.passes ++ " pass(es), " ++
      toString p.table.size ++ " symbol(s)"))

/-- Rounds until one finds nothing. None if there is no end of it, which takes a compiler that always
    comes up with new names. -/
def rounds (job : Job) (source : String) (p : Progress) :
    Option (Except LoadError Settled × Progress) :=
  match job.round source p with
  | (.error error, p) => some (.error error, p)
  | (.ok (_, true), p) => job |>.rounds source (job.enter "Recompiling" p)
  | (.ok (code, false), p) =>
    let (settled, p) := job.finish code p
    some (.ok settled, p)
partial_fixpoint

/-- Settles a template. The error stands for rounds without end and is never returned. -/
def settle (job : Job) (source : String) (registry : Registry) (journal : Journal) :
    Except LoadError Settled × Progress :=
  let start : Progress := { registry, journal }
  (job.rounds source start).getD (.error (.other "Template does not settle"), start)

end Job

end Stache
