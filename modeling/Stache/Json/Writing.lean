import Stache.Decimal.Shortest
import Stache.Json.Value
import Stache.Text.Quoted

/-!
# Writing JSON

A value on one line, without white space. Strings are written as string literals, doubles with the fewest
digits that read back.
-/

namespace Stache.Json

mutual

/-- How a value is written. -/
def text : Json → String
  | .null => "null"
  | .bool true => "true"
  | .bool false => "false"
  | .int value => toString value
  | .float value => Decimal.text value
  | .str value => Text.quote value
  | .arr items => "[" ++ String.intercalate "," (itemTexts items) ++ "]"
  | .obj fields => "\x7b" ++ String.intercalate "," (fieldTexts fields) ++ "\x7d"

/-- How the items of an array are written. -/
def itemTexts : List Json → List String
  | [] => []
  | item :: items => item.text :: itemTexts items

/-- How the fields of an object are written. -/
def fieldTexts : List (String × Json) → List String
  | [] => []
  | (key, value) :: fields => (Text.quote key ++ ":" ++ value.text) :: fieldTexts fields

end

end Stache.Json
