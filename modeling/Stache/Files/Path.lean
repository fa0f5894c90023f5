import Stache.Text.Cut

/-!
# Paths

A path is a text whose parts are separated by `/`. Its *components* forget repeated separators,
trailing separators and `.` (except as the very first part), so `/a/b`, `/a//b/` and `/a/./b` have the
same components. Everything here is lexical; no file is looked at. Names that are no valid text are left
out: a system may have them, and two of them may look the same where a path becomes a text.

* `Path.join` puts one path after another;
* `Path.normalize` resolves `.` and `..` on the components;
* `Path.parent?`, `Path.fileName?`, `Path.fileStem?`, `Path.ancestors` take a path apart;
* `Path.storageForm` is the text used in generated code and in keys: forward slashes only.
-/

namespace Stache

/-- A path, as it is spelled. -/
structure Path where
  /-- The spelling. -/
  text : String
  deriving DecidableEq, Repr, Inhabited

namespace Path

/-! ## 1. Components -/

/-- A part of a path that counts. -/
inductive Component where
  /-- The separator that an absolute path begins with. -/
  | root
  /-- A `.` at the very beginning. -/
  | current
  /-- A `..`. -/
  | parent
  /-- The name of a file or directory. -/
  | normal (name : String)
  deriving DecidableEq, Repr

/-- The component's text. -/
def Component.text : Component → String
  | .root => "/"
  | .current => "."
  | .parent => ".."
  | .normal name => name

/-- The order of components: the root first, then `.`, then `..`, then names. -/
def Component.compare : Component → Component → Ordering
  | .normal a, .normal b => Ord.compare a b
  | a, b => Ord.compare (rank a) (rank b)
where
  /-- The place of each kind of component in the order. -/
  rank : Component → Nat
    | .root => 0
    | .current => 1
    | .parent => 2
    | .normal _ => 3

/-- The parts between separators, empty ones included. -/
def parts (p : Path) : List (List Char) :=
  p.text.toList.splitOn '/'

/-- The component that a part inside a path stands for, if any. -/
def Component.ofPart? (part : List Char) : Option Component :=
  if part = [] ∨ part = ['.'] then none
  else if part = ['.', '.'] then some .parent
  else some (.normal (String.ofList part))

/-- A path that begins at the root. -/
def isAbsolute (p : Path) : Bool :=
  p.text.toList.head? == some '/'

/-- The components, in order. -/
def components (p : Path) : List Component :=
  let body := p.parts.filterMap Component.ofPart?
  if p.isAbsolute then .root :: body
  else if p.parts.head? == some ['.'] then .current :: body
  else body

/-- The order of paths: by components, the first difference decides. -/
def compare (a b : Path) : Ordering :=
  List.compareLex Component.compare a.components b.components

/-- Two spellings with the same components. -/
def sameComponents (a b : Path) : Bool :=
  a.components == b.components

/-! ## 2. Joining -/

/-- The path `q` as seen from `p`: an absolute `q` stands alone. -/
def join (p q : Path) : Path :=
  if q.isAbsolute then q
  else
    let start := p.text.toList
    if start = [] ∨ start.getLast? = some '/' then ⟨p.text ++ q.text⟩ else ⟨p.text ++ "/" ++ q.text⟩

/-- The path with the given components. -/
def ofComponents (components : List Component) : Path :=
  components.foldl (fun p c => p.join ⟨c.text⟩) ⟨""⟩

/-! ## 3. Normal form -/

/-- One more component on a stack of components whose last one is the head: `..` takes a name away,
    vanishes at the root, and stays elsewhere. -/
def pushComponent (stack : List Component) : Component → List Component
  | .current => stack
  | .parent =>
    match stack with
    | .normal _ :: below => below
    | .root :: below => .root :: below
    | stack => .parent :: stack
  | c => c :: stack

/-- The path without `.`, and with every `..` resolved against the name before it. -/
def normalize (p : Path) : Path :=
  ofComponents (p.components.foldl pushComponent []).reverse

/-! ## 4. Taking apart -/

/-- Parts that add nothing at the end of a path. -/
def isEmptyPart (part : List Char) : Bool :=
  part == [] || part == ['.']

/-- The parts without the empty ones at the end. -/
def trimParts (parts : List (List Char)) : List (List Char) :=
  (parts.reverse.dropWhile isEmptyPart).reverse

/-- The text of parts with separators between them. -/
def joinParts (parts : List (List Char)) : String :=
  String.ofList (List.intercalate ['/'] parts)

/-- The path without its last component; the root and the empty path have none. The spelling of what
    stays is kept. -/
def parent? (p : Path) : Option Path :=
  match p.parts with
  | [] => none
  | first :: rest =>
    if p.isAbsolute then
      match trimParts rest with
      | [] => none
      | body =>
        match trimParts body.dropLast with
        | [] => some ⟨"/"⟩
        | left => some ⟨joinParts ([] :: left)⟩
    else if first = ['.'] then
      match trimParts rest with
      | [] => some ⟨""⟩
      | body => some ⟨joinParts (first :: trimParts body.dropLast)⟩
    else
      match trimParts (first :: rest) with
      | [] => none
      | body => some ⟨joinParts (trimParts body.dropLast)⟩

/-- The path, its parent, the parent's parent, and so on. -/
def ancestors (p : Path) : List Path :=
  upTo p.components.length p
where
  /-- The path and at most `n` of the paths above it. -/
  upTo : Nat → Path → List Path
    | 0, p => [p]
    | n + 1, p => p :: (match p.parent? with | none => [] | some q => upTo n q)

/-- The last component, when it is a name. -/
def fileName? (p : Path) : Option String :=
  match p.components.getLast? with
  | some (.normal name) => some name
  | _ => none

/-- The file name before its last dot; a dot at the very beginning does not count. -/
def fileStem? (p : Path) : Option String :=
  p.fileName?.map fun name =>
    match Text.cutLast? '.' name.toList with
    | some (stem@(_ :: _), _) => String.ofList stem
    | _ => name

/-! ## 5. From a working directory -/

/-- The path seen from the directory `cwd`, without `.` components. A leading `//` that is not `///`
    and a trailing separator are kept. -/
def absoluteFrom (p cwd : Path) : Path :=
  let names := p.components.filter (· != .current)
  let whole :=
    if p.isAbsolute then
      match p.text.toList with
      | '/' :: '/' :: c =>
        if c.head? == some '/' then ofComponents names
        else (names.drop 1).foldl (fun q c => q.join ⟨c.text⟩) ⟨"//"⟩
      | _ => ofComponents names
    else names.foldl (fun q c => q.join ⟨c.text⟩) cwd
  if p.text.toList.getLast? = some '/' then whole.join ⟨""⟩ else whole

/-! ## 6. In generated code -/

/-- The path with forward slashes, and without the marks `\\?\` and `\\?\UNC\` of extended-length
    paths. The path is valid text before, so no character is lost. -/
def storageForm (p : Path) : String :=
  let text := p.text.toList
  let plain :=
    match Text.afterMark? "\\\\?\\UNC\\".toList text with
    | some rest => '/' :: '/' :: rest
    | none => (Text.afterMark? "\\\\?\\".toList text).getD text
  String.ofList (plain.map fun c => if c = '\\' then '/' else c)

end Path

end Stache
