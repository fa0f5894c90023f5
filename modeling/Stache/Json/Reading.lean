import Stache.Json.Value
import Stache.Text.Cut

/-!
# Reading JSON

A text is cut into marks (literals, strings, numbers and punctuation) and the marks are nested. Reading is
strict: nothing but white space may stand between marks and around the value, and arrays and objects may
not be nested deeper than `Json.maxDepth`.

* Strings hold any character from U+0020 on; the escape of a surrogate has to be one half of a pair.
* Whole numbers of 64 bits, with or without sign, are whole; all other numbers are doubles, computed from
  the longest leading run of digits that fits in 64 bits and one power of ten. A number beyond the doubles
  is refused.
-/

namespace Stache.Json

/-! ## 1. Numbers -/

/-- The spelling of a number, taken apart. -/
structure Numeral where
  /-- The number has a minus sign. -/
  negative : Bool
  /-- The digits before the point. -/
  whole : List Nat
  /-- The digits behind the point, if there is one. -/
  fraction : Option (List Nat)
  /-- The exponent, if there is one. -/
  exponent : Option Int

/-- The largest number of 64 bits. -/
def maxWord : Nat := Nat.pow 2 64 - 1

/-- Takes digits up as long as the number fits in 64 bits: the number, and the digits that are left. -/
def takeDigits (number : Nat) : List Nat → Nat × List Nat
  | [] => (number, [])
  | d :: digits =>
    if 10 * number + d ≤ maxWord then takeDigits (10 * number + d) digits
    else (number, d :: digits)

/-- A power of ten that doubles can hold, rounded. -/
def powerOfTen (n : Nat) : Float :=
  Float.ofScientific 1 false n

/-- The largest exponent of ten for which doubles hold the power. -/
def maxPower : Nat := 308

/-- The number divided by ten so many times, in steps that doubles can hold. -/
def divideByTens (x : Float) (n : Nat) : Float :=
  if n ≤ maxPower then x / powerOfTen n
  else if x == 0 then x
  else divideByTens (x / powerOfTen maxPower) (n - maxPower)
termination_by n
decreasing_by simp only [maxPower] at *; omega

/-- A number times a power of ten; none when it is beyond the doubles. -/
def scaled? (number : Nat) (exponent : Int) : Option Float :=
  let x := number.toUInt64.toFloat
  if exponent < 0 then some (divideByTens x (-exponent).toNat)
  else if exponent.toNat ≤ maxPower then
    let y := x * powerOfTen exponent.toNat
    if y.isInf then none else some y
  else if number = 0 then some x
  else none

/-- The value of a number with its sign. -/
def signed (negative : Bool) (x : Float) : Float :=
  if negative then -x else x

/-- The value that a numeral has. -/
def Numeral.value? (n : Numeral) : Option Json :=
  let (number, left) := takeDigits 0 n.whole
  match left, n.fraction, n.exponent with
  | [], none, none =>
    if !n.negative then some (.int number)
    else if number = 0 ∨ Nat.pow 2 63 < number then some (.float (-number.toUInt64.toFloat))
    else some (.int (-number))
  | left, fraction, exponent =>
    let digits := fraction.getD []
    let (number, unused) := takeDigits number digits
    let places := digits.length - unused.length
    (scaled? number (exponent.getD 0 + left.length - places)).map fun x =>
      .float (signed n.negative x)

/-- The digits at the front of a text, and what is left. -/
def readDigits (text : List Char) : List Nat × List Char :=
  ((text.takeWhile Char.isDigit).map fun c => c.toNat - '0'.toNat, text.dropWhile Char.isDigit)

/-- The whole number that digits make. -/
def ofDigits (digits : List Nat) : Nat :=
  digits.foldl (fun n d => 10 * n + d) 0

/-- The digits of a whole number: one zero, or digits of which the first is none. -/
def readWhole : List Char → Option (List Nat × List Char)
  | '0' :: text => some ([0], text)
  | text =>
    match readDigits text with
    | ([], _) => none
    | read => some read

/-- The fraction at the front of a text, if one begins there; none when it has no digit. -/
def readFraction : List Char → Option (Option (List Nat) × List Char)
  | '.' :: text =>
    match readDigits text with
    | ([], _) => none
    | (digits, rest) => some (some digits, rest)
  | text => some (none, text)

/-- The exponent behind its letter. -/
def readPower (text : List Char) : Option (Int × List Char) :=
  let (negative, text) := match text with
    | '-' :: text => (true, text)
    | '+' :: text => (false, text)
    | text => (false, text)
  match readDigits text with
  | ([], _) => none
  | (digits, rest) => some (if negative then -ofDigits digits else ofDigits digits, rest)

/-- The exponent at the front of a text, if one begins there; none when it has no digit. -/
def readExponent : List Char → Option (Option Int × List Char)
  | 'e' :: text | 'E' :: text => (readPower text).map fun (power, rest) => (some power, rest)
  | text => some (none, text)

/-- The numeral at the front of a text, and what is left. -/
def readNumeral (text : List Char) : Option (Numeral × List Char) := do
  let (negative, text) := match text with
    | '-' :: text => (true, text)
    | text => (false, text)
  let (whole, text) ← readWhole text
  let (fraction, text) ← readFraction text
  let (exponent, text) ← readExponent text
  return (⟨negative, whole, fraction, exponent⟩, text)

/-! ## 2. Strings -/

/-- The value of a hexadecimal digit. -/
def hexValue? (c : Char) : Option Nat :=
  if c.isDigit then some (c.toNat - '0'.toNat)
  else if 'a' ≤ c ∧ c ≤ 'f' then some (c.toNat - 'a'.toNat + 10)
  else if 'A' ≤ c ∧ c ≤ 'F' then some (c.toNat - 'A'.toNat + 10)
  else none

/-- The number that four hexadecimal digits make. -/
def hexUnit? (a b c d : Char) : Option Nat := do
  return ((← hexValue? a) * 16 + (← hexValue? b)) * 256 + (← hexValue? c) * 16 + (← hexValue? d)

/-- The character that a backslash and a letter stand for. -/
def shortEscape? : Char → Option Char
  | '"' => some '"'
  | '\\' => some '\\'
  | '/' => some '/'
  | 'b' => some '\x08'
  | 'f' => some '\x0c'
  | 'n' => some '\n'
  | 'r' => some '\r'
  | 't' => some '\t'
  | _ => none

/-- The first half of a pair of surrogates. -/
def isHighSurrogate (unit : Nat) : Bool := 0xD800 ≤ unit && unit ≤ 0xDBFF

/-- The second half of a pair of surrogates. -/
def isLowSurrogate (unit : Nat) : Bool := 0xDC00 ≤ unit && unit ≤ 0xDFFF

/-- The character that a pair of surrogates stands for. -/
def pairChar (high low : Nat) : Char :=
  Char.ofNat (0x10000 + (high - 0xD800) * 0x400 + (low - 0xDC00))

/-- Reads a string behind its opening quote: its characters in reverse order and what is left behind the
    closing quote. -/
def readString (held : List Char) : List Char → Option (List Char × List Char)
  | '"' :: text => some (held, text)
  | '\\' :: 'u' :: a :: b :: c :: d :: text =>
    match hexUnit? a b c d with
    | none => none
    | some unit =>
      if isHighSurrogate unit then
        match text with
        | '\\' :: 'u' :: a :: b :: c :: d :: text =>
          match hexUnit? a b c d with
          | none => none
          | some low =>
            if isLowSurrogate low then readString (pairChar unit low :: held) text else none
        | _ => none
      else if isLowSurrogate unit then none
      else readString (Char.ofNat unit :: held) text
  | '\\' :: c :: text =>
    match shortEscape? c with
    | some c => readString (c :: held) text
    | none => none
  | c :: text => if c.toNat < 0x20 then none else readString (c :: held) text
  | [] => none

/-! ## 3. Marks -/

/-- A part of the spelling of a value. -/
inductive Mark where
  /-- A value that holds no others. -/
  | value (v : Json)
  /-- An array begins. -/
  | openArray
  /-- An array ends. -/
  | closeArray
  /-- An object begins. -/
  | openObject
  /-- An object ends. -/
  | closeObject
  /-- Another item or field follows. -/
  | comma
  /-- A value follows its key. -/
  | colon

/-- White space between marks. -/
def isGap (c : Char) : Bool :=
  c == ' ' || c == '\n' || c == '\r' || c == '\t'

/-- The words that are values. -/
def wordValue? (text : List Char) : Option (Json × List Char) :=
  match Text.afterMark? "null".toList text with
  | some rest => some (.null, rest)
  | none =>
    match Text.afterMark? "true".toList text with
    | some rest => some (.bool true, rest)
    | none => (Text.afterMark? "false".toList text).map fun rest => (.bool false, rest)

/-- The mark at the front of a text, and what is left. -/
def readMark? (text : List Char) : Option (Mark × List Char) :=
  match text with
  | '[' :: text => some (.openArray, text)
  | ']' :: text => some (.closeArray, text)
  | '\x7b' :: text => some (.openObject, text)
  | '\x7d' :: text => some (.closeObject, text)
  | ',' :: text => some (.comma, text)
  | ':' :: text => some (.colon, text)
  | '"' :: text =>
    (readString [] text).map fun (held, rest) => (.value (.str (String.ofList held.reverse)), rest)
  | text =>
    match wordValue? text with
    | some (v, rest) => some (.value v, rest)
    | none => do
      let (numeral, rest) ← readNumeral text
      return (.value (← numeral.value?), rest)

/-- Reads all marks, at most `fuel` of them; a text has no more marks than characters. -/
def readMarks (fuel : Nat) (text : List Char) : Option (List Mark) :=
  match text.dropWhile isGap with
  | [] => some []
  | text =>
    match fuel with
    | 0 => none
    | fuel + 1 => do
      let (mark, rest) ← readMark? text
      return mark :: (← readMarks fuel rest)

/-! ## 4. Nesting -/

/-- An array or object that has not ended, with what it holds so far in reverse order. -/
inductive Open where
  /-- An array. -/
  | arr (items : List Json)
  /-- An object, and the key of the value that is being read. -/
  | obj (fields : Fields) (key : String)

/-- The deepest nesting of arrays and objects. -/
def maxDepth : Nat := 127

mutual

/-- A value has to follow. -/
def nestValue (outer : List Open) : List Mark → Option Json
  | .value v :: marks => nestAfter outer v marks
  | .openArray :: .closeArray :: marks =>
    if outer.length < maxDepth then nestAfter outer (.arr []) marks else none
  | .openArray :: marks =>
    if outer.length < maxDepth then nestValue (.arr [] :: outer) marks else none
  | .openObject :: .closeObject :: marks =>
    if outer.length < maxDepth then nestAfter outer (.obj []) marks else none
  | .openObject :: .value (.str key) :: .colon :: marks =>
    if outer.length < maxDepth then nestValue (.obj [] key :: outer) marks else none
  | _ => none

/-- A value has been read. -/
def nestAfter (outer : List Open) (v : Json) : List Mark → Option Json
  | [] => if outer.isEmpty then some v else none
  | .comma :: .value (.str key) :: .colon :: marks =>
    match outer with
    | .obj fields held :: outer => nestValue (.obj ((held, v) :: fields) key :: outer) marks
    | _ => none
  | .comma :: marks =>
    match outer with
    | .arr items :: outer => nestValue (.arr (v :: items) :: outer) marks
    | _ => none
  | .closeArray :: marks =>
    match outer with
    | .arr items :: outer => nestAfter outer (.arr (v :: items).reverse) marks
    | _ => none
  | .closeObject :: marks =>
    match outer with
    | .obj fields held :: outer => nestAfter outer (ofFields ((held, v) :: fields).reverse) marks
    | _ => none
  | _ => none

end

/-- Reads a value. -/
def read? (text : String) : Option Json := do
  let marks ← readMarks (text.length + 1) text.toList
  nestValue [] marks

end Stache.Json
