import JsonPath.Json.Printer

/-! The types of element that a function asks its arguments for, and how values are made to fit. -/
namespace JsonPath

inductive ElementType where
  | number
  | string
  | boolean
  | any
  deriving DecidableEq, Repr

/-- A string itself, the JSON text of any other value. -/
def Json.stringify : Json → String
  | string s => s
  | v => v.text

namespace ElementType

def name : ElementType → String
  | number => "Number"
  | string => "String"
  | boolean => "Boolean"
  | any => "Any"

/-- No type accepts `null`. -/
def accepts : ElementType → Json → Bool
  | _, .null => false
  | number, .number _ => true
  | string, .string _ => true
  | boolean, .bool _ => true
  | any, _ => true
  | _, _ => false

/-- What an element of an array becomes. Only strings can be made of other values. -/
def coerceElement? (t : ElementType) (v : Json) : Option Json :=
  if v.isNull then none
  else if t.accepts v then some v
  else if t = string then some (.string v.stringify)
  else none

/-- The elements of the type that a value gives: those of an array, one by one, or the value itself.
What does not fit is left out. -/
def coerce (t : ElementType) : Json → List Json
  | .array es => es.filterMap t.coerceElement?
  | v => if t.accepts v then [v] else []

/-- Appends what a value gives. -/
def consume (t : ElementType) (collected : List Json) (v : Json) : List Json :=
  collected ++ t.coerce v

end ElementType
end JsonPath
