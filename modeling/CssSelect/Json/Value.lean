import CssSelect.Json.Number

/-!
JSON values. An object keeps its members in order, repeated names included, and
a number keeps the digits it was written with.
-/
namespace CssSelect.Json

/-- A JSON value. -/
inductive Value where
  | null
  | bool (value : Bool)
  | number (negative : Bool) (decimal : Decimal)
  | string (value : String)
  | array (items : List Value)
  | object (members : List (String × Value))

end CssSelect.Json
