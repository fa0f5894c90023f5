import Stache.Symbol.Table

/-!
# The journal

What happens on the way of a job, in order: every symbol that is looked for, every probe for a module,
and the messages for the log.
-/

namespace Stache

/-- How much a message matters. -/
inductive Level where
  /-- Every step. -/
  | trace
  /-- For finding faults. -/
  | debug
  /-- Worth knowing. -/
  | info
  /-- Something is not as it should be. -/
  | warn
  deriving DecidableEq, Repr

/-- How a level is written. -/
def Level.label : Level → String
  | .trace => "TRACE"
  | .debug => "DEBUG"
  | .info => "INFO"
  | .warn => "WARN"

/-- A probe for a module: from which directory, what was asked for, and what was found. -/
structure Probe where
  /-- The directory. -/
  base : Path
  /-- The request. -/
  request : String
  /-- What was found. -/
  found : Option Path
  deriving DecidableEq, Repr

/-- Something that happened. -/
inductive Event where
  /-- The search for a symbol began. -/
  | searched (kind : SymbolKind) (name : String)
  /-- A probe was made. -/
  | probed (probe : Probe)
  /-- A message was logged. -/
  | logged (level : Level) (message : String)
  deriving DecidableEq, Repr

/-- What happened, the latest first. -/
abbrev Journal := List Event

namespace Journal

/-- The journal when the search for a symbol begins. -/
def search (journal : Journal) (kind : SymbolKind) (name : String) : Journal :=
  .searched kind name :: journal

/-- The journal with one more message. -/
def log (journal : Journal) (level : Level) (message : String) : Journal :=
  .logged level message :: journal

/-- The journal with one more message, if it is wanted. -/
def logIf (journal : Journal) (wanted : Bool) (level : Level) (message : String) : Journal :=
  if wanted then journal.log level message else journal

/-- The probe of an event. -/
def probe? : Event → Option Probe
  | .probed probe => some probe
  | _ => none

/-- The message of an event. -/
def message? : Event → Option (Level × String)
  | .logged level message => some (level, message)
  | _ => none

/-- The symbol that an event begins to look for. -/
def symbol? : Event → Option (SymbolKind × String)
  | .searched kind name => some (kind, name)
  | _ => none

/-- The probes, in order. -/
def probes (journal : Journal) : List Probe :=
  journal.reverse.filterMap probe?

/-- The messages, in order. -/
def messages (journal : Journal) : List (Level × String) :=
  journal.reverse.filterMap message?

/-- The symbols that were looked for, in order. -/
def searches (journal : Journal) : List (SymbolKind × String) :=
  journal.reverse.filterMap symbol?

/-- The number of probes. -/
def probeCount (journal : Journal) : Nat :=
  journal.countP fun event => (probe? event).isSome

end Journal

end Stache
