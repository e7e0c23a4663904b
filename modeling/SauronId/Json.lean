import Mathlib.Algebra.Ring.Int.Defs
import Mathlib.Data.Rat.Defs

namespace SauronId

/-- A parsed JSON value. Integers and numbers with a fraction or exponent are
kept apart, as `serde_json` does. -/
inductive Json
  | null
  | bool (value : Bool)
  | integer (value : ℤ)
  | float (value : ℚ)
  | str (value : String)
  | arr (items : List Json)
  | obj (fields : List (String × Json))

namespace Json

def get : Json → String → Option Json
  | obj fields, name => fields.lookup name
  | _, _ => none

def asArray : Json → Option (List Json)
  | arr items => some items
  | _ => none

def asStr : Json → Option String
  | str value => some value
  | _ => none

def asF64 : Json → Option ℚ
  | integer value => some value
  | float value => some value
  | _ => none

def asBool : Json → Option Bool
  | bool value => some value
  | _ => none

def asI64 : Json → Option ℤ
  | integer value => if -2 ^ 63 ≤ value ∧ value < 2 ^ 63 then some value else none
  | _ => none

def asU64 : Json → Option ℕ
  | integer value => if 0 ≤ value then some value.toNat else none
  | _ => none

end Json

end SauronId
