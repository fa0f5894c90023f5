import Stache.Digest.Sha256
import Stache.Files.Write
import Stache.Journal

/-!
# The module store

A directory that keeps emitted modules. The entry of a template is a file named by the digest of its path.
An entry counts only as long as it is newer than its template.
-/

namespace Stache

/-- How the names of entries end. -/
def entryEnding : String := ".hbs.compiled"

/-- A directory that keeps modules. -/
structure ModuleStore where
  /-- The directory. -/
  dir : Path

namespace ModuleStore

/-- The entry of a template. -/
def entry (store : ModuleStore) (template : Path) : Path :=
  store.dir.join ⟨Sha256.hexDigest template.storageForm ++ entryEnding⟩

/-- The error of a failed file operation. -/
def errorAt (path : Path) (error : IoError) : LoadError :=
  .cache path.text error.message

/-- The stored module of a template, if there is one that is newer than the template. -/
def lookup (store : ModuleStore) (template : Path) (tree : FileTree) (journal : Journal) :
    Except LoadError (Option String) × Journal :=
  let entry := store.entry template
  match tree.stat template, tree.stat entry with
  | .error _, _ => (.ok none, journal)
  | .ok _, .error .notFound => (.ok none, journal)
  | .ok _, .error error => (.error (errorAt entry error), journal)
  | .ok source, .ok held =>
    if held.modified ≤ source.modified then
      (.ok none, journal.log .debug
        ("Stale cache entry " ++ entry.text ++ " for " ++ template.text))
    else
      match tree.readText entry with
      | .ok text => (.ok (some text), journal)
      | .error error => (.error (errorAt entry error), journal)

/-- Stores the module of a template: where, or why not. -/
def insert (store : ModuleStore) (template : Path) (text : String) (tree : FileTree) :
    Except LoadError Path × FileTree :=
  let entry := store.entry template
  let failed := fun (failure : Failure) => Except.error (LoadError.cache entry.text failure.chain)
  match tree.ensureDir store.dir with
  | (.error failure, tree) => (failed failure, tree)
  | (.ok (), tree) =>
    match tree.writeFile entry text with
    | (.error failure, tree) => (failed failure, tree)
    | (.ok (), tree) => (.ok entry, tree)

/-- The entries, in order. Files with other names and directories are none. -/
def entries (store : ModuleStore) (tree : FileTree) : List Path :=
  match tree.list store.dir with
  | .error _ => []
  | .ok names =>
    let paths := (names.filter fun name =>
      (Text.beforeMark? entryEnding.toList name.toList).isSome).map fun name => store.dir.join ⟨name⟩
    paths.filter tree.hasFile

/-- Removes entries: how many, or which one cannot be removed. -/
def removeAll (removed : Nat) (tree : FileTree) : List Path → Except LoadError Nat × FileTree
  | [] => (.ok removed, tree)
  | entry :: entries =>
    match tree.removeFile entry with
    | .error error => (.error (errorAt entry error), tree)
    | .ok tree => removeAll (removed + 1) tree entries

/-- Removes all entries. -/
def clean (store : ModuleStore) (tree : FileTree) : Except LoadError Nat × FileTree :=
  removeAll 0 tree (store.entries tree)

/-- The size of a file. -/
def sizeOf (tree : FileTree) (path : Path) : Nat :=
  match tree.stat path with
  | .ok entry => entry.size
  | .error _ => 0

/-- The number of entries and of the bytes in them. -/
def stats (store : ModuleStore) (tree : FileTree) : Nat × Nat :=
  let entries := store.entries tree
  (entries.length, entries.foldl (fun bytes entry => bytes + sizeOf tree entry) 0)

end ModuleStore

end Stache
