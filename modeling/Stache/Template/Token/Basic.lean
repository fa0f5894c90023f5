/-!
# Tokens of a mustache

What the inside of a tag is made of.
-/

namespace Stache

/-- What separates the segments of a lookup. -/
inductive Separator where
  /-- `.` -/
  | dot
  /-- `/` -/
  | slash
  deriving DecidableEq, Repr

/-- A separator's spelling. -/
def Separator.char : Separator → Char
  | .dot => '.'
  | .slash => '/'

/-- A token inside a mustache. -/
inductive Token where
  /-- A name, written bare or in brackets. -/
  | id (name : String)
  /-- A separator between segments. -/
  | sep (mark : Separator)
  /-- `..` -/
  | dotDot
  /-- The mark `@` of data lookups. -/
  | at
  /-- A string, without its quotes. -/
  | str (value : String)
  /-- A number, as it is spelled. -/
  | num (spelling : String)
  /-- `true` or `false` -/
  | bool (value : Bool)
  /-- `null` -/
  | null
  /-- `undefined` -/
  | undefined
  /-- `(` -/
  | openParen
  /-- `)` -/
  | closeParen
  /-- `=` -/
  | equals
  /-- `|` -/
  | pipe
  deriving DecidableEq, Repr

/-- The name that messages call a token by. -/
def Token.label : Token → String
  | .id _ => "Id"
  | .sep .dot => "Sep('.')"
  | .sep .slash => "Sep('/')"
  | .dotDot => "DotDot"
  | .at => "At"
  | .str _ => "Str"
  | .num _ => "Num"
  | .bool _ => "Bool"
  | .null => "Null"
  | .undefined => "Undefined"
  | .openParen => "OpenParen"
  | .closeParen => "CloseParen"
  | .equals => "Equals"
  | .pipe => "Pipe"

end Stache
