import Std.Data.ExtTreeMap
import Stache.Files.Path

/-!
# The symbol table

Every job keeps a table of the names that its template refers to. A name is recorded in one of three
kinds, and what is known about it only grows: it is pending until it has been searched, then found or
not; a name once found keeps its path.

* `Records` is the part of a table for one kind, with one operation for each way to learn something;
* `SymbolTable` holds the three parts;
* `SymbolTable.dependencies` are the files behind the partials and helpers that were found.
-/

namespace Stache

/-- The kinds of symbols. -/
inductive SymbolKind where
  /-- Partials. -/
  | partialTemplate
  /-- Helpers. -/
  | helper
  /-- Members of the context that have the name of a helper. -/
  | ambiguous
  deriving DecidableEq, Repr

/-- How a kind is called. -/
def SymbolKind.label : SymbolKind → String
  | .partialTemplate => "partial"
  | .helper => "helper"
  | .ambiguous => "ambiguous"

/-- What is known about a symbol. -/
inductive Resolution where
  /-- It was seen but not searched. -/
  | pending
  /-- It was searched and not found. -/
  | unresolved
  /-- It was found. -/
  | resolved (path : Path)
  deriving DecidableEq, Repr

namespace Resolution

/-- The symbol was searched. -/
def attempted : Resolution → Bool
  | .pending => false
  | _ => true

/-- Where the symbol was found. -/
def path? : Resolution → Option Path
  | .resolved path => some path
  | _ => none

/-- What is known once the symbol was found: an earlier path stays. -/
def found (path : Path) : Resolution → Resolution
  | .resolved earlier => .resolved earlier
  | _ => .resolved path

/-- What is known once the symbol was searched in vain: only a pending symbol changes. -/
def missed : Resolution → Resolution
  | .pending => .unresolved
  | known => known

end Resolution

/-! ## 1. The records of one kind -/

/-- What is known about the names of one kind, in order of the names. -/
abbrev Records := Std.ExtTreeMap String Resolution

namespace Records

/-- Records a name as pending, unless it is recorded already. -/
def register (records : Records) (name : String) : Records :=
  records.insertIfNew name .pending

/-- Records that a name was found. -/
def markResolved (records : Records) (name : String) (path : Path) : Records :=
  records.insert name ((records.getD name .pending).found path)

/-- Records that a name was searched in vain. -/
def markUnresolved (records : Records) (name : String) : Records :=
  records.modify name .missed

/-- Where a name was found. -/
def path? (records : Records) (name : String) : Option Path :=
  records[name]?.bind Resolution.path?

/-- The name was searched. -/
def isAttempted (records : Records) (name : String) : Bool :=
  (records[name]?.map Resolution.attempted).getD false

/-- The names that wait to be searched, in order. -/
def pending (records : Records) : List String :=
  records.toList.filterMap fun (name, state) => if state = .pending then some name else none

/-- The paths that were found, in order of the names. -/
def paths (records : Records) : List Path :=
  records.toList.filterMap fun (_, state) => state.path?

end Records

/-! ## 2. The table -/

/-- What is known about the symbols of one template. -/
structure SymbolTable where
  /-- The partials. -/
  partials : Records := ∅
  /-- The helpers. -/
  helpers : Records := ∅
  /-- The ambiguous names. -/
  ambiguous : Records := ∅

namespace SymbolTable

/-- The records of a kind. -/
def records (table : SymbolTable) : SymbolKind → Records
  | .partialTemplate => table.partials
  | .helper => table.helpers
  | .ambiguous => table.ambiguous

/-- The table with other records for a kind. -/
def setRecords (table : SymbolTable) (kind : SymbolKind) (records : Records) : SymbolTable :=
  match kind with
  | .partialTemplate => { table with partials := records }
  | .helper => { table with helpers := records }
  | .ambiguous => { table with ambiguous := records }

/-- What is known about a name. -/
def get? (table : SymbolTable) (kind : SymbolKind) (name : String) : Option Resolution :=
  (table.records kind)[name]?

/-- Where a name was found. -/
def path? (table : SymbolTable) (kind : SymbolKind) (name : String) : Option Path :=
  (table.records kind).path? name

/-- The name was searched. -/
def isAttempted (table : SymbolTable) (kind : SymbolKind) (name : String) : Bool :=
  (table.records kind).isAttempted name

/-- Records a name as pending, unless it is recorded already. -/
def register (table : SymbolTable) (kind : SymbolKind) (name : String) : SymbolTable :=
  table.setRecords kind ((table.records kind).register name)

/-- Records that a name was found. -/
def markResolved (table : SymbolTable) (kind : SymbolKind) (name : String) (path : Path) :
    SymbolTable :=
  table.setRecords kind ((table.records kind).markResolved name path)

/-- Records that a name was searched in vain. -/
def markUnresolved (table : SymbolTable) (kind : SymbolKind) (name : String) : SymbolTable :=
  table.setRecords kind ((table.records kind).markUnresolved name)

/-- Records that an ambiguous name turned out to be a helper: both kinds learn the path. -/
def promote (table : SymbolTable) (name : String) (path : Path) : SymbolTable :=
  (table.markResolved .ambiguous name path).markResolved .helper name path

/-- The names of a kind that wait to be searched, in order. -/
def pending (table : SymbolTable) (kind : SymbolKind) : List String :=
  (table.records kind).pending

/-- The number of symbols of all kinds. -/
def size (table : SymbolTable) : Nat :=
  table.partials.size + table.helpers.size + table.ambiguous.size

/-! ## 3. Dependencies -/

/-- The files behind the partials and helpers that were found, in order of their paths and each once. Of
    several spellings of one path the last stays: helpers come after partials. -/
def dependencies (table : SymbolTable) : List Path :=
  let sorted := (table.partials.paths ++ table.helpers.paths).mergeSort
    fun a b => (Path.compare a b).isLE
  (sorted.reverse.eraseRepsBy Path.sameComponents).reverse

end SymbolTable

end Stache
