/-!
# Faults of options

Why the value of an option is refused, one constructor per cause, with the wording in
`OptionFault.message`.
-/

namespace Stache

/-- Why the value of an option is refused. -/
inductive OptionFault where
  /-- A percent sign without two hexadecimal digits behind it. -/
  | badEscape (input : String)
  /-- Escapes that are not the bytes of a text. -/
  | notUtf8 (input : String)
  /-- A query in JSON that is not an object. -/
  | notAnObject
  /-- A query in JSON that does not read. -/
  | malformedJson
  /-- A configuration file that does not read or has values of wrong types. -/
  | malformedToml
  /-- A value of another type than the option has. -/
  | wrongType (found expected : String)
  /-- A value that is neither a string nor a list of strings. -/
  | notStrings
  /-- A text that cannot be the extension of a file. -/
  | notAnExtension (text : String)
  /-- A variable of the environment that is not set. -/
  | unsetVariable (name : String)
  /-- A fault reported with its own wording. -/
  | reported (reason : String)
  deriving DecidableEq, Repr

/-- The wording of a fault. -/
def OptionFault.message : OptionFault → String
  | .badEscape input => "bad percent escape in '" ++ input ++ "'"
  | .notUtf8 input => "'" ++ input ++ "' is not valid UTF-8"
  | .notAnObject => "query must be a JSON object"
  | .malformedJson => "malformed JSON"
  | .malformedToml => "malformed TOML"
  | .wrongType found expected => "invalid type: " ++ found ++ ", expected " ++ expected
  | .notStrings => "data did not match any variant of untagged enum StringList"
  | .notAnExtension text => "'" ++ text ++ "' is not a file extension"
  | .unsetVariable name =>
    "error looking key '" ++ name ++ "' up: environment variable not found"
  | .reported reason => reason

end Stache
