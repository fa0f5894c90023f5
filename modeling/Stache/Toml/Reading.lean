import Stache.Json.Reading

/-!
# Reading TOML

Documents of the TOML format, read into JSON values: tables become objects. A document is a sequence of
lines, each of them a key with a value, the header of a table, or nothing; comments and white space stand
between them. No key may be given twice.

* Keys are bare, quoted, or several of these with dots between them;
* strings are basic (with escapes) or literal, on one line or, in triple quotes, on several;
* arrays may go over several lines and may hold comments;
* dates and arrays of tables are refused.
-/

namespace Stache.Toml

/-! ## 1. Gaps -/

/-- White space inside a line. -/
def isGap (c : Char) : Bool :=
  c == ' ' || c == '\t'

/-- The text behind white space. -/
def skipGap (text : List Char) : List Char :=
  text.dropWhile isGap

/-- The text behind a comment, if one begins here. -/
def skipComment : List Char → List Char
  | '#' :: text => text.dropWhile (· != '\n')
  | text => text

/-- The text behind a line feed, which a carriage return may precede; none if something else is there
    than the end of the text. -/
def endLine? : List Char → Option (List Char)
  | [] => some []
  | '\n' :: text => some text
  | '\r' :: '\n' :: text => some text
  | _ => none

/-- The text behind the rest of a line that holds nothing more. -/
def finishLine? (text : List Char) : Option (List Char) :=
  endLine? (skipComment (skipGap text))

/-- The text behind all lines, as long as they hold nothing; the fuel bounds their number. -/
def skipLines (fuel : Nat) (text : List Char) : List Char :=
  match fuel with
  | 0 => text
  | fuel + 1 =>
    match skipComment (skipGap text) with
    | '\n' :: text => skipLines fuel text
    | '\r' :: '\n' :: text => skipLines fuel text
    | text => text

/-! ## 2. Strings -/

/-- A character that may stand in a string: no control character but the tab. -/
def isTextChar (c : Char) : Bool :=
  c == '\t' || (0x20 ≤ c.toNat && c.toNat != 0x7f)

/-- The number that hexadecimal digits make. -/
def hexNumber? (digits : List Char) : Option Nat :=
  digits.foldlM (fun n c => do return 16 * n + (← Json.hexValue? c)) 0

/-- The character with a code, if there is one. -/
def charOf? (code : Nat) : Option Char :=
  if h : code.isValidChar then some (Char.ofNatAux code h) else none

/-- The character that a backslash and a letter stand for. -/
def shortEscape? : Char → Option Char
  | '"' => some '"'
  | '\\' => some '\\'
  | 'b' => some '\x08'
  | 'f' => some '\x0c'
  | 'n' => some '\n'
  | 'r' => some '\r'
  | 't' => some '\t'
  | _ => none

/-- The character that an escape stands for, read behind its backslash, and what is left. -/
def readEscape : List Char → Option (Char × List Char)
  | 'u' :: text =>
    if text.length < 4 then none
    else do return (← charOf? (← hexNumber? (text.take 4)), text.drop 4)
  | 'U' :: text =>
    if text.length < 8 then none
    else do return (← charOf? (← hexNumber? (text.take 8)), text.drop 8)
  | c :: text => do return (← shortEscape? c, text)
  | [] => none

/-- Reads a basic string behind its quote. -/
def readBasic (fuel : Nat) (text : List Char) : Option (List Char × List Char) :=
  match fuel, text with
  | _, '"' :: text => some ([], text)
  | fuel + 1, '\\' :: text => do
    let (c, text) ← readEscape text
    let (inside, rest) ← readBasic fuel text
    return (c :: inside, rest)
  | fuel + 1, c :: text =>
    if isTextChar c then do
      let (inside, rest) ← readBasic fuel text
      return (c :: inside, rest)
    else none
  | _, _ => none

/-- Reads a basic string of several lines behind its quotes. A backslash at the end of a line takes the
    white space up to the next character with it. -/
def readBasicLines (fuel : Nat) (text : List Char) : Option (List Char × List Char) :=
  match fuel, text with
  | _, '"' :: '"' :: '"' :: '"' :: '"' :: text => some (['"', '"'], text)
  | _, '"' :: '"' :: '"' :: '"' :: text => some (['"'], text)
  | _, '"' :: '"' :: '"' :: text => some ([], text)
  | fuel + 1, '\\' :: text =>
    match skipGap text with
    | '\n' :: _ | '\r' :: '\n' :: _ =>
      readBasicLines fuel (text.dropWhile fun c => isGap c || c == '\n' || c == '\r')
    | _ => do
      let (c, text) ← readEscape text
      let (inside, rest) ← readBasicLines fuel text
      return (c :: inside, rest)
  | fuel + 1, c :: text =>
    if isTextChar c || c == '\n' || c == '\r' then do
      let (inside, rest) ← readBasicLines fuel text
      return (c :: inside, rest)
    else none
  | _, _ => none

/-- Reads a literal string behind its quote. -/
def readLiteral : List Char → Option (List Char × List Char)
  | '\'' :: text => some ([], text)
  | c :: text =>
    if isTextChar c then (readLiteral text).map fun (inside, rest) => (c :: inside, rest) else none
  | [] => none

/-- Reads a literal string of several lines behind its quotes. -/
def readLiteralLines : List Char → Option (List Char × List Char)
  | '\'' :: '\'' :: '\'' :: '\'' :: '\'' :: text => some (['\'', '\''], text)
  | '\'' :: '\'' :: '\'' :: '\'' :: text => some (['\''], text)
  | '\'' :: '\'' :: '\'' :: text => some ([], text)
  | c :: text =>
    if isTextChar c || c == '\n' || c == '\r' then
      (readLiteralLines text).map fun (inside, rest) => (c :: inside, rest)
    else none
  | [] => none

/-- The text behind a line feed right at the beginning. -/
def dropFirstBreak : List Char → List Char
  | '\n' :: text => text
  | '\r' :: '\n' :: text => text
  | text => text

/-- The string at the front of a text, if one begins there. -/
def readString? (text : List Char) : Option (Option (String × List Char)) :=
  let result := fun (read : Option (List Char × List Char)) =>
    some (read.map fun (inside, rest) => (String.ofList inside, rest))
  match text with
  | '"' :: '"' :: '"' :: text => result (readBasicLines text.length (dropFirstBreak text))
  | '"' :: text => result (readBasic text.length text)
  | '\'' :: '\'' :: '\'' :: text => result (readLiteralLines (dropFirstBreak text))
  | '\'' :: text => result (readLiteral text)
  | _ => none

/-! ## 3. Keys -/

/-- A character of a bare key. -/
def isBareChar (c : Char) : Bool :=
  c.isAlphanum || c == '_' || c == '-'

/-- The key at the front of a text. -/
def readKey? (text : List Char) : Option (String × List Char) :=
  match text with
  | '"' :: text => (readBasic text.length text).map fun (key, rest) => (String.ofList key, rest)
  | '\'' :: text => (readLiteral text).map fun (key, rest) => (String.ofList key, rest)
  | text =>
    match text.takeWhile isBareChar with
    | [] => none
    | key => some (String.ofList key, text.dropWhile isBareChar)

/-- The keys with dots between them at the front of a text. -/
def readKeys? (fuel : Nat) (text : List Char) : Option (List String × List Char) :=
  match fuel with
  | 0 => none
  | fuel + 1 => do
    let (key, rest) ← readKey? (skipGap text)
    match skipGap rest with
    | '.' :: rest =>
      let (keys, rest) ← readKeys? fuel rest
      return (key :: keys, rest)
    | rest => return ([key], rest)

/-! ## 4. Numbers and truth values -/

/-- The digits of a number without their underscores, each of which stands between two digits. -/
def plainDigits? : List Char → Option (List Char)
  | [] => none
  | [c] => if c.isDigit then some [c] else none
  | c :: '_' :: d :: digits =>
    if c.isDigit then (plainDigits? (d :: digits)).map (c :: ·) else none
  | c :: digits => if c.isDigit then (plainDigits? digits).map (c :: ·) else none

/-- Digits of which the first is zero only if it is alone. -/
def wholeDigits? (text : List Char) : Option (List Char) :=
  match plainDigits? text with
  | some ('0' :: _ :: _) => none
  | digits => digits

/-- The text behind a sign, and whether the sign is a minus. -/
def splitSign : List Char → Bool × List Char
  | '-' :: text => (true, text)
  | '+' :: text => (false, text)
  | text => (false, text)

/-- The number that digits make. -/
def numberOf (digits : List Char) : Int :=
  digits.foldl (fun n c => 10 * n + (c.toNat - '0'.toNat : Nat)) 0

/-- The whole number that a text spells, with or without sign, if 64 bits can hold it. -/
def integer? (text : List Char) : Option Json :=
  let (negative, digits) := splitSign text
  match wholeDigits? digits with
  | none => none
  | some digits =>
    let n := numberOf digits
    if n < Nat.pow 2 63 + (if negative then 1 else 0) then some (.int (if negative then -n else n))
    else none

/-- The double that a text spells: digits with a fraction, an exponent or both. -/
def float? (text : List Char) : Option Json := do
  let (negative, digits) := splitSign text
  let (mantissa, power) := match digits.span fun c => c != 'e' && c != 'E' with
    | (mantissa, []) => (mantissa, none)
    | (mantissa, _ :: power) => (mantissa, some power)
  let (whole, fraction) := match mantissa.span (· != '.') with
    | (whole, []) => (whole, none)
    | (whole, _ :: fraction) => (whole, some fraction)
  let whole ← wholeDigits? whole
  let fraction ← match fraction with
    | none => if power.isNone then none else some []
    | some digits => plainDigits? digits
  let power ← match power with
    | none => some 0
    | some power =>
      let (negative, digits) := splitSign power
      (plainDigits? digits).map fun digits => if negative then -(numberOf digits) else numberOf digits
  let number := numberOf (whole ++ fraction)
  let exponent : Int := power - fraction.length
  let x := Float.ofScientific number.toNat (exponent < 0) exponent.natAbs
  return .float (if negative then -x else x)

/-- A character of a number or a truth value. -/
def isPlainChar (c : Char) : Bool :=
  c.isAlphanum || c == '_' || c == '-' || c == '+' || c == '.'

/-- The base of a whole number, by the letter behind its leading zero. -/
def baseOf? : Char → Option Nat
  | 'x' => some 16
  | 'o' => some 8
  | 'b' => some 2
  | _ => none

/-- The value of digits of a base, between which underscores may stand one by one. -/
def basedDigits? (base held : Nat) : List Char → Option Nat
  | [] => none
  | [c] => do
    let d ← Json.hexValue? c
    if d < base then some (base * held + d) else none
  | c :: '_' :: digits => do
    let d ← Json.hexValue? c
    if d < base then basedDigits? base (base * held + d) digits else none
  | c :: digits => do
    let d ← Json.hexValue? c
    if d < base then basedDigits? base (base * held + d) digits else none

/-- The whole number that a text spells with a base other than ten. -/
def basedInteger? : List Char → Option Json
  | '0' :: letter :: digits => do
    let n ← basedDigits? (← baseOf? letter) 0 digits
    if n < Nat.pow 2 63 then some (.int n) else none
  | _ => none

/-- The doubles that are spelled with letters. -/
def specialFloat? (text : List Char) : Option Json :=
  let (negative, word) := splitSign text
  let signed := fun (x : Float) => some (Json.float (if negative then -x else x))
  if word = "inf".toList then signed (1 / 0)
  else if word = "nan".toList then signed (0 / 0)
  else none

/-- The number or truth value that a text spells. -/
def plainValue? (text : List Char) : Option Json :=
  if text = "true".toList then some (.bool true)
  else if text = "false".toList then some (.bool false)
  else (integer? text).or ((basedInteger? text).or ((specialFloat? text).or (float? text)))

/-! ## 5. Tables and values -/

/-- Puts a value at the end of a way through tables that has not been there. -/
def insertAt? (value : Json) : List String → Json.Fields → Option Json.Fields
  | [], _ => none
  | [key], fields =>
    match fields.get? key with
    | some _ => none
    | none => some (fields.put key value)
  | key :: keys, fields =>
    match fields.get? key with
    | none => do return fields.put key (.obj (← insertAt? value keys []))
    | some (.obj inner) => do return fields.put key (.obj (← insertAt? value keys inner))
    | some _ => none

mutual

/-- Reads a value. -/
def readValue (fuel : Nat) (text : List Char) : Option (Json × List Char) :=
  match fuel with
  | 0 => none
  | fuel + 1 =>
    match text with
    | '[' :: text => do
      let (items, rest) ← readItems fuel text
      return (.arr items, rest)
    | '\x7b' :: text =>
      match skipGap text with
      | '\x7d' :: rest => some (.obj [], rest)
      | text => do
        let (fields, rest) ← readFields fuel [] text
        return (.obj fields, rest)
    | text =>
      match readString? text with
      | some read => read.map fun (value, rest) => (.str value, rest)
      | none => do
        let value ← plainValue? (text.takeWhile isPlainChar)
        return (value, text.dropWhile isPlainChar)

/-- Reads the items of an array behind its bracket or a comma. -/
def readItems (fuel : Nat) (text : List Char) : Option (List Json × List Char) :=
  match fuel with
  | 0 => none
  | fuel + 1 =>
    match skipLines text.length text with
    | ']' :: rest => some ([], rest)
    | text => do
      let (item, rest) ← readValue fuel text
      match skipLines rest.length rest with
      | ',' :: rest =>
        let (items, rest) ← readItems fuel rest
        return (item :: items, rest)
      | ']' :: rest => return ([item], rest)
      | _ => none

/-- Reads the fields of a table on one line, behind its brace or a comma. -/
def readFields (fuel : Nat) (held : Json.Fields) (text : List Char) :
    Option (Json.Fields × List Char) :=
  match fuel with
  | 0 => none
  | fuel + 1 => do
    let (keys, rest) ← readKeys? text.length text
    let '=' :: rest := rest | none
    let (value, rest) ← readValue fuel (skipGap rest)
    let fields ← insertAt? value keys held
    match skipGap rest with
    | ',' :: rest => readFields fuel fields rest
    | '\x7d' :: rest => return (fields, rest)
    | _ => none

end

/-! ## 6. Documents -/

/-- A document as far as it has been read. -/
structure Document where
  /-- All tables. -/
  fields : Json.Fields
  /-- The headers that were given. -/
  headers : List (List String)
  /-- The table that keys are put into. -/
  current : List String

/-- Begins a table. -/
def Document.openTable? (document : Document) (keys : List String) : Option Document :=
  if keys ∈ document.headers then none
  else do
    let fields ← match insertAt? (.obj []) keys document.fields with
      | some fields => some fields
      | none => if isTable keys document.fields then some document.fields else none
    return ⟨fields, keys :: document.headers, keys⟩
where
  /-- A way through tables ends at a table. -/
  isTable : List String → Json.Fields → Bool
    | [], _ => true
    | key :: keys, fields =>
      match fields.get? key with
      | some (.obj inner) => isTable keys inner
      | _ => false

/-- Reads one line that is not empty. -/
def readLine? (document : Document) (text : List Char) : Option (Document × List Char) := do
  match text with
  | '[' :: '[' :: _ => none
  | '[' :: text =>
    let (keys, rest) ← readKeys? text.length text
    let ']' :: rest := rest | none
    return (← document.openTable? keys, ← finishLine? rest)
  | text =>
    let (keys, rest) ← readKeys? text.length text
    let '=' :: rest := rest | none
    let (value, rest) ← readValue (2 * text.length) (skipGap rest)
    let fields ← insertAt? value (document.current ++ keys) document.fields
    return ({ document with fields := fields }, ← finishLine? rest)

/-- Reads lines, at most `fuel` of them. -/
def readLines? (fuel : Nat) (document : Document) (text : List Char) : Option Document :=
  match skipLines (text.length + 1) text with
  | [] => some document
  | text =>
    match fuel with
    | 0 => none
    | fuel + 1 => do
      let (document, rest) ← readLine? document text
      readLines? fuel document rest

/-- A text without the mark of its byte order in front. -/
def dropMark : List Char → List Char
  | '\ufeff' :: text => text
  | text => text

/-- The top table of a document. -/
def read? (text : String) : Option Json.Fields :=
  (readLines? text.length ⟨[], [], []⟩ (dropMark text.toList)).map (·.fields)

end Stache.Toml
