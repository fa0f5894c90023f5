/-!
# Failures of the file system

One constructor per cause, with the wording of the operating system in `IoError.message`.
-/

namespace Stache

/-- The kinds of failure that are treated apart. -/
inductive IoKind where
  /-- Something on the way does not exist. -/
  | notFound
  /-- Access is not allowed. -/
  | permissionDenied
  /-- Any other kind. -/
  | other
  deriving DecidableEq, Repr

/-- Why a file operation failed. -/
inductive IoError where
  /-- A file or directory on the way does not exist. -/
  | notFound
  /-- Something that has to be a directory is a file. -/
  | notADirectory
  /-- A directory stands where a file is needed. -/
  | isADirectory
  /-- Something by that name exists already. -/
  | alreadyExists
  /-- The target is in use, such as the directory `.` itself. -/
  | busy
  /-- A name of more than 255 bytes, or a path of 4096 bytes or more. -/
  | nameTooLong
  /-- A path that holds the character NUL. -/
  | nulInName
  /-- The bytes of a file that was read as text are not UTF-8. -/
  | notUtf8
  /-- An empty path has no absolute form. -/
  | emptyPath
  /-- A failure reported with its own wording. -/
  | reported (kind : IoKind) (message : String)
  deriving DecidableEq, Repr

namespace IoError

/-- The kind of a failure. -/
def kind : IoError → IoKind
  | .notFound => .notFound
  | .reported kind _ => kind
  | _ => .other

/-- The failure tells that there is nothing: something on the way does not exist or is no directory. -/
def isAbsence : IoError → Bool
  | .notFound | .notADirectory | .reported .notFound _ => true
  | _ => false

/-- The wording of a failure. -/
def message : IoError → String
  | .notFound => "No such file or directory (os error 2)"
  | .notADirectory => "Not a directory (os error 20)"
  | .isADirectory => "Is a directory (os error 21)"
  | .alreadyExists => "File exists (os error 17)"
  | .busy => "Device or resource busy (os error 16)"
  | .nameTooLong => "File name too long (os error 36)"
  | .nulInName => "file name contained an unexpected NUL byte"
  | .notUtf8 => "stream did not contain valid UTF-8"
  | .emptyPath => "cannot make an empty path absolute"
  | .reported _ message => message

end IoError

end Stache
