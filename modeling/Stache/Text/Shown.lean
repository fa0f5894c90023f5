import Stache.Text.Quoted
import Stache.Text.Visible

/-!
# Text in messages

How a message quotes a text: between double quotes, with escapes for the quote, the backslash, the common
control characters, and every other character that is not shown as itself.
-/

namespace Stache.Text

/-- A number in lower-case hexadecimal. -/
def hexText (n : Nat) : List Char :=
  Nat.toDigits 16 n

/-- How one character is shown. -/
def shownChar (c : Char) : List Char :=
  match c with
  | '"' => ['\\', '"']
  | '\\' => ['\\', '\\']
  | '\n' => ['\\', 'n']
  | '\r' => ['\\', 'r']
  | '\t' => ['\\', 't']
  | '\x00' => ['\\', '0']
  | c => if isVisible c then [c] else '\\' :: 'u' :: '\x7b' :: (hexText c.toNat ++ ['\x7d'])

/-- How a text is shown. -/
def shown (text : String) : String :=
  String.ofList ('"' :: (text.toList.flatMap shownChar ++ ['"']))

end Stache.Text
