import Stache.Spec.Reference
import Stache.Symbol.Registry
import Stache.Symbol.Table
import Stache.Text.Blank

/-!
# How names are written

The answers that a job gives to a compilation. A partial or helper that was found becomes a module load;
any other name is left as it is and recorded, so that it can be searched for after the pass. Texts that
match a pattern become module loads as well.

Nothing is searched here.
-/

namespace Stache

/-! ## 1. Module loads -/

/-- The load of the module with a request. -/
def loadText (request : String) : String :=
  "require(" ++ Text.quote request ++ ")"

/-- The load of the module in a file. -/
def loadPath (path : Path) : String :=
  loadText path.storageForm

/-- The call target that the module of a helper provides. -/
def loadHelper (path : Path) : String :=
  "__default(" ++ loadPath path ++ ")"

/-! ## 2. Names -/

/-- The names of partials that the runtime provides begin so. -/
def isProvidedPartial (name : String) : Bool :=
  name.toList.head? == some '@'

/-- The answer for a partial. -/
def answerPartial (name : String) (table : SymbolTable) : Option String × SymbolTable :=
  if isProvidedPartial name then (none, table)
  else
    match table.path? .partialTemplate name with
    | some path => (some (loadPath path), table)
    | none => (none, table.register .partialTemplate name)

/-- The answer for a helper. One that an earlier job found need not be searched for. -/
def answerHelper (registry : Registry) (name : String) (table : SymbolTable) :
    Option String × SymbolTable :=
  match table.path? .helper name with
  | some path => (some (loadHelper path), table)
  | none =>
    match registry.path? name with
    | some path => (some (loadHelper path), table.markResolved .helper name path)
    | none => (none, table.register .helper name)

/-- The answer for a member of a context. One with the name of a helper is ambiguous. -/
def answerMember (registry : Registry) (name : String) (table : SymbolTable) :
    Option String × SymbolTable :=
  (none, if name ∈ registry.known then table.register .ambiguous name else table)

/-- The answer for a name. -/
def answerSymbol (registry : Registry) (kind : LookupKind) (name : String) (table : SymbolTable) :
    Option String × SymbolTable :=
  match kind with
  | .partialTemplate => answerPartial name table
  | .helper => answerHelper registry name table
  | .context => answerMember registry name table
  | .data => (none, table)

/-! ## 3. Texts -/

/-- A character that ends a token of static content. -/
def isTokenDelimiter (c : Char) : Bool :=
  Text.isBlank c || c ∈ ['"', '\'', '<', '>', '(', ')']

/-- A place in a text. -/
structure Cursor where
  /-- The number of characters before the place. -/
  index : Nat
  /-- The text from there on. -/
  rest : List Char

namespace Cursor

/-- The place so many characters on. -/
def forward (place : Cursor) (count : Nat) : Cursor :=
  ⟨place.index + count, place.rest.drop count⟩

/-- The text between two places. -/
def upTo (start stop : Cursor) : List Char :=
  start.rest.take (stop.index - start.index)

end Cursor

/-- How far static content is read. -/
structure ChunkScan where
  /-- Where the next character stands. -/
  here : Cursor
  /-- Where the text begins that is not written yet. -/
  literal : Cursor
  /-- Where the token begins that is open. -/
  token : Option Cursor := none
  /-- The operands that are written, the last one first. -/
  operands : List String := []
  /-- A token is loaded. -/
  isMatched : Bool := false

namespace ChunkScan

/-- The operands with the text up to a place as a literal, if there is any. -/
def writeLiteral (scan : ChunkScan) (stop : Cursor) : List String :=
  if scan.literal.index < stop.index then
    Text.quote (String.ofList (scan.literal.upTo stop)) :: scan.operands
  else scan.operands

/-- Closes the token that is open, if there is one. If it is to be loaded, the text before it becomes a
    literal. -/
def close (inline : String → Bool) (scan : ChunkScan) : ChunkScan :=
  match scan.token with
  | none => scan
  | some start =>
    let token := String.ofList (start.upTo scan.here)
    if inline token then
      { here := scan.here, literal := scan.here, operands := loadText token :: scan.writeLiteral start,
        isMatched := true }
    else { scan with token := none }

/-- Reads a character. -/
def read (inline : String → Bool) (scan : ChunkScan) (c : Char) : ChunkScan :=
  let scan :=
    if isTokenDelimiter c then scan.close inline
    else { scan with token := scan.token.or (some scan.here) }
  { scan with here := scan.here.forward 1 }

/-- Reads a text to its end. -/
def readAll (inline : String → Bool) (scan : ChunkScan) (text : List Char) : ChunkScan :=
  (text.foldl (read inline) scan).close inline

end ChunkScan

/-- Static content with module loads in place of the tokens that match, if any does. -/
def inlineChunk (inline : String → Bool) (text : String) : Option String :=
  let start : Cursor := ⟨0, text.toList⟩
  let scan := ({ here := start, literal := start } : ChunkScan).readAll inline text.toList
  if scan.isMatched then
    some (String.intercalate " + " (scan.writeLiteral scan.here).reverse)
  else none

/-- A module load in place of a string argument that matches. -/
def inlineLiteral (inline : String → Bool) (value : String) : Option String :=
  if inline value then some (loadText value) else none

/-! ## 4. All references -/

/-- The answer of a job to a reference. `inline` tells which texts are loaded. -/
def answer (registry : Registry) (inline : String → Bool) (reference : Reference)
    (table : SymbolTable) : Option String × SymbolTable :=
  match reference with
  | .symbol kind _ name => answerSymbol registry kind name table
  | .literal value => (inlineLiteral inline value, table)
  | .chunk text => (inlineChunk inline text, table)

end Stache
