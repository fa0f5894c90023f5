/-!
# JSON values

Values of the JSON data format. The fields of an object are kept in order of their keys, each key once.
-/

namespace Stache

/-- A JSON value. -/
inductive Json where
  /-- `null` -/
  | null
  /-- `true` or `false` -/
  | bool (value : Bool)
  /-- A whole number. -/
  | int (value : Int)
  /-- A number with a fraction or an exponent, or too large for a whole number. -/
  | float (value : Float)
  /-- A string. -/
  | str (value : String)
  /-- An array. -/
  | arr (items : List Json)
  /-- An object. -/
  | obj (fields : List (String × Json))

namespace Json

/-- The fields of an object. -/
abbrev Fields := List (String × Json)

/-- The value of a field. -/
def Fields.get? (fields : Fields) (key : String) : Option Json :=
  fields.lookup key

/-- The fields with a value for a key; an earlier value is replaced. -/
def Fields.put (key : String) (value : Json) : Fields → Fields
  | [] => [(key, value)]
  | (other, held) :: fields =>
    if key = other then (key, value) :: fields
    else if key < other then (key, value) :: (other, held) :: fields
    else (other, held) :: Fields.put key value fields

/-- The object with the given fields, of which the last one counts for each key. -/
def ofFields (fields : Fields) : Json :=
  .obj (fields.foldl (fun sorted (key, value) => Fields.put key value sorted) [])

end Json

end Stache
