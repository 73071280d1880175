import Siralos.Text

/-!
# JSON values

`serde_json::Value` with its default features: numbers keep the integer form
they were written in and an object is an ordered map from distinct keys.
-/

set_option autoImplicit false

namespace Siralos.Json

/-- A float is its IEEE 754 bit pattern; no modelled function computes with one. -/
inductive Number where
  | posInt (n : ℕ)
  | negInt (n : ℤ)
  | float (bits : UInt64)
  deriving DecidableEq, Repr

inductive Value where
  | null
  | bool (b : Bool)
  | number (n : Number)
  | string (s : Text)
  | array (values : List Value)
  | object (fields : List (Text × Value))
  deriving Repr

namespace Value

def isNull : Value → Bool
  | null => true
  | _ => false

def isObject : Value → Bool
  | object _ => true
  | _ => false

def asStr : Value → Option Text
  | string s => some s
  | _ => none

def asArray : Value → Option (List Value)
  | array values => some values
  | _ => none

def asObject : Value → Option (List (Text × Value))
  | object fields => some fields
  | _ => none

def asU64 : Value → Option ℕ
  | number (.posInt n) => some n
  | _ => none

/-- `value.get(key)`: a value that is not an object has no fields. -/
def get (key : Text) : Value → Option Value
  | object fields => fields.lookup key
  | _ => none

end Value
end Siralos.Json
