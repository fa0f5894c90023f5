/-!
# String literals

How a text is written between double quotes in generated code: `"` and `\` take a backslash, control
characters below U+0020 are written by their short escape or as `\u00xx`, and the two line separators
U+2028 and U+2029 as `\u2028` and `\u2029`. All else stands for itself.
-/

namespace Stache.Text

/-- A digit below sixteen in lower-case hexadecimal. -/
def hexDigit (n : Nat) : Char :=
  if n < 10 then Char.ofNat (48 + n) else Char.ofNat (87 + n)

/-- The last four hexadecimal digits of `n`. -/
def hex4 (n : Nat) : List Char :=
  [hexDigit (n / 4096 % 16), hexDigit (n / 256 % 16), hexDigit (n / 16 % 16), hexDigit (n % 16)]

/-- How one character is written inside a string literal. -/
def escapeChar (c : Char) : List Char :=
  match c with
  | '"' => ['\\', '"']
  | '\\' => ['\\', '\\']
  | '\n' => ['\\', 'n']
  | '\r' => ['\\', 'r']
  | '\t' => ['\\', 't']
  | '\x08' => ['\\', 'b']
  | '\x0c' => ['\\', 'f']
  | c =>
    if c.toNat < 0x20 || c.toNat == 0x2028 || c.toNat == 0x2029 then '\\' :: 'u' :: hex4 c.toNat
    else [c]

/-- The string literal of a text. -/
def quoted (text : List Char) : List Char :=
  '"' :: (text.flatMap escapeChar ++ ['"'])

/-- The string literal of a text. -/
def quote (text : String) : String :=
  String.ofList (quoted text.toList)

end Stache.Text
