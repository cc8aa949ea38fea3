import JsonPath.Dictionary
import JsonPath.Json.Number

/-! JSON values and the ways to look into them. -/
namespace JsonPath

/-- The members of an object stand in strictly increasing key order. -/
inductive Json where
  | null
  | bool (b : Bool)
  | number (n : Number)
  | string (s : String)
  | array (elements : List Json)
  | object (members : List (String × Json))

namespace Json

def isNull : Json → Bool
  | null => true
  | _ => false

def isArray : Json → Bool
  | array _ => true
  | _ => false

def isObject : Json → Bool
  | object _ => true
  | _ => false

/-- The elements of an array; other values have none. -/
def elements : Json → List Json
  | array es => es
  | _ => []

def element? (v : Json) (i : Nat) : Option Json := v.elements[i]?

/-- The members of an object; other values have none. -/
def members : Json → List (String × Json)
  | object ms => ms
  | _ => []

def member? (v : Json) (name : String) : Option Json := Dictionary.lookup? name v.members

def keys (v : Json) : List String := Dictionary.keys v.members

/-- The number of elements, of members or of characters. -/
def length? : Json → Option Nat
  | array es => some es.length
  | object ms => some ms.length
  | string s => some s.length
  | _ => none

/-- The integer of a value that is held as a signed 64-bit integer. -/
def toInt64? : Json → Option Int64
  | number n => n.toInt?.bind fun i => if i ≤ Int64.maxValue.toInt then some (.ofInt i) else none
  | _ => none

/-- An integer value, `null` out of range. -/
def ofInt (n : Int) : Json := (Number.ofInt? n).elim null number

/-- What a value is called in messages. -/
def kind : Json → String
  | null => "null"
  | bool _ => "boolean"
  | number _ => "number"
  | string _ => "string"
  | array _ => "array"
  | object _ => "object"

end Json
end JsonPath
