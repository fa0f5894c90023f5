import Stache.Json.Reading
import Stache.Options.Fault
import Stache.Text.Blank

/-!
# Queries

Options written as a query: either a JSON object, or pairs between `&` and `,`.

* `key=value` sets a string, or a truth value for `true` and `false`;
* `key` and `+key` set true, `-key` sets false;
* `key[]=value` appends to a list.

The pairs are separated before they are decoded, their forms are recognised afterwards. Each pair says
what it does to one name; the query is the fold of its pairs.
-/

namespace Stache.Query

/-! ## 1. Percent encoding -/

/-- The value of a hexadecimal digit. -/
def hexValue? (byte : UInt8) : Option UInt8 :=
  if 48 ≤ byte ∧ byte ≤ 57 then some (byte - 48)
  else if 65 ≤ byte ∧ byte ≤ 70 then some (byte - 55)
  else if 97 ≤ byte ∧ byte ≤ 102 then some (byte - 87)
  else none

/-- The byte that is written behind a percent sign: two hexadecimal digits, or a plus sign and one. -/
def escapedByte? (high low : UInt8) : Option UInt8 :=
  if high = 43 then hexValue? low
  else do return 16 * (← hexValue? high) + (← hexValue? low)

/-- The decoded bytes. A plus sign is a space, except at the very beginning. -/
def decodeBytes (atStart : Bool) : List UInt8 → Option (List UInt8)
  | [] => some []
  | 37 :: high :: low :: bytes => do
    let byte ← escapedByte? high low
    return byte :: (← decodeBytes false bytes)
  | byte :: bytes =>
    if byte = 37 then none
    else
      let byte := if byte = 43 ∧ !atStart then 32 else byte
      (decodeBytes false bytes).map (byte :: ·)

/-- The decoded text. -/
def decode (input : String) : Except OptionFault String :=
  match decodeBytes true input.toUTF8.toList with
  | none => .error (.badEscape input)
  | some bytes =>
    match String.fromUTF8? ⟨bytes.toArray⟩ with
    | none => .error (.notUtf8 input)
    | some text => .ok text

/-! ## 2. Pairs -/

/-- What a pair does to its name. -/
inductive Setting where
  /-- Gives it a value. -/
  | put (value : Json)
  /-- Appends a value to its list. -/
  | append (value : Json)

/-- What a name holds after a setting. A single value becomes the first item of the list. -/
def Setting.apply (setting : Setting) (held : Option Json) : Json :=
  match setting with
  | .put value => value
  | .append value =>
    match held with
    | none => .arr [value]
    | some (.arr items) => .arr (items ++ [value])
    | some single => .arr [single, value]

/-- The value that a decoded text stands for. -/
def valueOf (text : String) : Json :=
  if text = "true" then .bool true
  else if text = "false" then .bool false
  else .str text

/-- The setting of a pair without a value: the sign tells which. -/
def flagSetting (key : String) : String × Setting :=
  match key.toList with
  | '-' :: name => (String.ofList name, .put (.bool false))
  | '+' :: name => (String.ofList name, .put (.bool true))
  | _ => (key, .put (.bool true))

/-- The setting of a pair with a value. -/
def valueSetting (key value : String) : String × Setting :=
  match Text.beforeMark? "[]".toList key.toList with
  | some name => (String.ofList name, .append (valueOf value))
  | none => (key, .put (valueOf value))

/-- The name and the setting of a written pair. -/
def readPair (pair : List Char) : Except OptionFault (String × Setting) :=
  match Text.cut? ['='] pair with
  | none => do return flagSetting (← decode (String.ofList pair))
  | some (key, value) => do
    let key ← decode (String.ofList key)
    return valueSetting key (← decode (String.ofList value))

/-- The pairs of a query, still encoded. -/
def splitPairs (body : List Char) : List (List Char) :=
  (body.splitOnP fun c => c == '&' || c == ',').filter (· ≠ [])

/-! ## 3. Queries -/

/-- The fields after one more setting. -/
def applySetting (fields : Json.Fields) (named : String × Setting) : Json.Fields :=
  fields.put named.1 (named.2.apply (fields.get? named.1))

/-- The fields that pairs make. -/
def ofPairs (body : List Char) : Except OptionFault Json.Fields := do
  let settings ← (splitPairs body).mapM readPair
  return settings.foldl applySetting []

/-- The query without white space around it and without its question mark. -/
def bodyOf (query : String) : List Char :=
  match Text.trim query.toList with
  | '?' :: body => body
  | body => body

/-- The fields that a query gives. -/
def parse (query : String) : Except OptionFault Json.Fields :=
  match bodyOf query with
  | body@('\x7b' :: _) =>
    match Json.read? (String.ofList body) with
    | some (.obj fields) => .ok fields
    | some _ => .error .notAnObject
    | none => .error .malformedJson
  | body => ofPairs body

end Stache.Query
