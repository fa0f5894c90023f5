import Std.Data.ExtTreeMap
import Stache.Files.IoError
import Stache.Files.Path

/-!
# The file tree

A file system as a value: a finite map from locations to files and directories, a working directory
that relative paths start from, and the time that the next write is stamped with.

* `FileTree.locate` follows a path part by part, as the operating system does: a part other than a
  name still needs a directory to stand in, so `file/` and `file/.` lead nowhere;
* `FileTree.stat`, `FileTree.readText`, `FileTree.list` read;
* `FileTree.makeDir`, `FileTree.replaceFile`, `FileTree.removeFile` write.
-/

namespace Stache

/-! ## 1. Entries -/

/-- What a file holds. -/
inductive Content where
  /-- The given bytes. -/
  | bytes (data : ByteArray)
  /-- So many zero bytes. -/
  | zeros (size : Nat)

namespace Content

/-- The UTF-8 encoding of a text. -/
def ofText (text : String) : Content :=
  .bytes text.toUTF8

/-- The number of bytes. -/
def size : Content → Nat
  | .bytes data => data.size
  | .zeros size => size

/-- The text, when the bytes are UTF-8. -/
def text? : Content → Option String
  | .bytes data => String.fromUTF8? data
  | .zeros size => some (String.ofList (List.replicate size '\x00'))

end Content

/-- A file or a directory, with the time of its last modification. -/
inductive Entry where
  /-- A regular file. -/
  | file (content : Content) (modified : Int)
  /-- A directory. -/
  | dir (modified : Int)

namespace Entry

/-- The time of the last modification. -/
def modified : Entry → Int
  | .file _ modified => modified
  | .dir modified => modified

/-- A regular file. -/
def isFile : Entry → Bool
  | .file .. => true
  | .dir .. => false

/-- The number of bytes of a file; none for a directory. -/
def size : Entry → Nat
  | .file content _ => content.size
  | .dir _ => 0

/-- The entry with another time. -/
def withModified (time : Int) : Entry → Entry
  | .file content _ => .file content time
  | .dir _ => .dir time

end Entry

/-- The names that lead from the root to a place. -/
abbrev Location := List String

/-- Files and directories by location, where relative paths start, and the time of the next write. -/
structure FileTree where
  /-- All entries except the root, which is always a directory. -/
  entries : Std.ExtTreeMap Location Entry := ∅
  /-- The working directory. -/
  cwd : Location := []
  /-- The time that writes are stamped with. -/
  now : Int := 0

namespace FileTree

/-! ## 2. Following a path -/

/-- The entry at a location. -/
def entryAt? (tree : FileTree) (place : Location) : Option Entry :=
  if place = [] then some (.dir 0) else tree.entries[place]?

/-- A directory stands at the location. -/
def isDirAt (tree : FileTree) (place : Location) : Bool :=
  match tree.entryAt? place with
  | some (.dir _) => true
  | _ => false

/-- The longest name of a file, in bytes. -/
def maxName : Nat := 255

/-- A path of this many bytes is too long. -/
def maxPath : Nat := 4096

/-- Where the parts of a path lead from a place. Every part needs a directory to stand in. -/
def descend (tree : FileTree) : Location → List (List Char) → Except IoError Location
  | place, [] => .ok place
  | place, part :: rest =>
    if !tree.isDirAt place then .error .notADirectory
    else if Path.isEmptyPart part then tree.descend place rest
    else if part = ['.', '.'] then tree.descend place.dropLast rest
    else
      let name := String.ofList part
      if maxName < name.utf8ByteSize then .error .nameTooLong
      else
        match tree.entryAt? (place ++ [name]) with
        | none => .error .notFound
        | some _ => tree.descend (place ++ [name]) rest

/-- Where a path starts, and its parts from there. -/
def origin (tree : FileTree) (p : Path) : Location × List (List Char) :=
  if p.isAbsolute then ([], p.parts.drop 1) else (tree.cwd, p.parts)

/-- The system refuses some spellings before it looks at any file. -/
def checkSpelling (p : Path) : Except IoError Unit :=
  if p.text.toList.contains '\x00' then .error .nulInName
  else if p.text = "" then .error .notFound
  else if maxPath ≤ p.text.utf8ByteSize then .error .nameTooLong
  else .ok ()

/-- The location that a path leads to. -/
def locate (tree : FileTree) (p : Path) : Except IoError Location := do
  checkSpelling p
  let (start, parts) := tree.origin p
  tree.descend start parts

/-- The entry that a path leads to. -/
def stat (tree : FileTree) (p : Path) : Except IoError Entry := do
  let place ← tree.locate p
  match tree.entryAt? place with
  | some entry => .ok entry
  | none => .error .notFound

/-- The path leads somewhere. -/
def has (tree : FileTree) (p : Path) : Bool :=
  (tree.stat p).isOk

/-- The path leads to a directory. -/
def hasDir (tree : FileTree) (p : Path) : Bool :=
  match tree.stat p with
  | .ok (.dir _) => true
  | _ => false

/-- The path leads to a regular file. -/
def hasFile (tree : FileTree) (p : Path) : Bool :=
  match tree.stat p with
  | .ok entry => entry.isFile
  | .error _ => false

/-! ## 3. Reading -/

/-- The text of the file at a path. -/
def readText (tree : FileTree) (p : Path) : Except IoError String := do
  match ← tree.stat p with
  | .dir _ => .error .isADirectory
  | .file content _ =>
    match content.text? with
    | some text => .ok text
    | none => .error .notUtf8

/-- The names in the directory at a location, in order. -/
def childrenAt (tree : FileTree) (place : Location) : List String :=
  tree.entries.keys.filterMap fun key => if key.dropLast = place then key.getLast? else none

/-- The names in a directory, in order. -/
def list (tree : FileTree) (p : Path) : Except IoError (List String) := do
  let place ← tree.locate p
  if tree.isDirAt place then .ok (tree.childrenAt place) else .error .notADirectory

/-! ## 4. Writing -/

/-- The tree with an entry put at a location. -/
def insertAt (tree : FileTree) (place : Location) (entry : Entry) : FileTree :=
  { tree with entries := tree.entries.insert place entry }

/-- The directory that a path's last part stands in, and that part. The part is empty for the root,
    and the flag tells whether a separator follows it. -/
def target (tree : FileTree) (p : Path) : Except IoError (Location × List Char × Bool) := do
  checkSpelling p
  let (start, parts) := tree.origin p
  let body := (parts.reverse.dropWhile (· == [])).reverse
  match body.getLast? with
  | none => .ok (start, [], true)
  | some last =>
    let place ← tree.descend start body.dropLast
    if tree.isDirAt place then .ok (place, last, parts.length != body.length)
    else .error .notADirectory

/-- A part that names a new or existing entry of a directory. -/
def isNamePart (part : List Char) : Bool :=
  !Path.isEmptyPart part && part != ['.', '.']

/-- Makes one directory. -/
def makeDir (tree : FileTree) (p : Path) : Except IoError FileTree := do
  let (place, last, _) ← tree.target p
  let name := String.ofList last
  if !isNamePart last then .error .alreadyExists
  else if maxName < name.utf8ByteSize then .error .nameTooLong
  else
    match tree.entryAt? (place ++ [name]) with
    | some _ => .error .alreadyExists
    | none => .ok (tree.insertAt (place ++ [name]) (.dir tree.now))

/-- Moves a finished file onto a path, in place of any file that stood there. -/
def replaceFile (tree : FileTree) (p : Path) (content : Content) : Except IoError FileTree := do
  let (place, last, slash) ← tree.target p
  let name := String.ofList last
  if !isNamePart last then .error .busy
  else if maxName < name.utf8ByteSize then .error .nameTooLong
  else if slash then .error .notADirectory
  else
    match tree.entryAt? (place ++ [name]) with
    | some (.dir _) => .error .isADirectory
    | _ => .ok (tree.insertAt (place ++ [name]) (.file content tree.now))

/-- Takes a file away. -/
def removeFile (tree : FileTree) (p : Path) : Except IoError FileTree := do
  let place ← tree.locate p
  if tree.isDirAt place then .error .isADirectory
  else .ok { tree with entries := tree.entries.erase place }

/-- Gives an entry another time. -/
def touch (tree : FileTree) (p : Path) (time : Int) : FileTree :=
  match tree.locate p with
  | .error _ => tree
  | .ok place =>
    match tree.entryAt? place with
    | none => tree
    | some entry => tree.insertAt place (entry.withModified time)

/-- Puts an entry at a location, with directories for all that is missing above it. -/
def plant (tree : FileTree) (place : Location) (entry : Entry) : FileTree :=
  let above := (List.range place.length).tail.map place.take
  let grown := above.foldl
    (fun t dir => if (t.entryAt? dir).isSome then t else t.insertAt dir (.dir t.now)) tree
  grown.insertAt place entry

/-- The regular files, with their locations. -/
def files (tree : FileTree) : List (Location × Content) :=
  tree.entries.toList.filterMap fun (place, entry) =>
    match entry with
    | .file content _ => some (place, content)
    | .dir _ => none

end FileTree

end Stache
