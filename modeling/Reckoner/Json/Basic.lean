/-!
# JSON values

Whole numbers that fit 64 bits, with or without a sign, are kept apart from the others. The fields
of an object are in ascending order of their keys, each key once.
-/
namespace Reckoner

inductive Json where
  | null
  | bool (value : Bool)
  | integer (value : Int)
  | real (value : Float)
  | string (text : String)
  | array (items : List Json)
  | object (fields : List (String × Json))

namespace Json

/-- The fields with this one, which replaces a field of the same key. -/
def insertField (key : String) (value : Json) : List (String × Json) → List (String × Json)
  | [] => [(key, value)]
  | field :: fields =>
    if key < field.1 then (key, value) :: field :: fields
    else if key = field.1 then (key, value) :: fields
    else field :: insertField key value fields

/-- An object with these fields; of several with one key the last counts. -/
def ofFields (fields : List (String × Json)) : Json :=
  object (fields.foldl (fun sorted field => insertField field.1 field.2 sorted) [])

/-- The value of a field. -/
def lookup (key : String) (fields : List (String × Json)) : Option Json :=
  (fields.find? fun field => field.1 = key).map Prod.snd

end Json
end Reckoner
