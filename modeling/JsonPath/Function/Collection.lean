import JsonPath.Operand

/-! Functions that pick from a value or extend it. -/
namespace JsonPath.Collection

/-- The place of a position in a list of `length` elements, a negative one counted from the end. It
may lie behind the end but not before the beginning. -/
def place? (position : Int) (length : Nat) : Option Nat :=
  if 0 ≤ position then some position.toNat
  else if position.natAbs ≤ length then some (length - position.natAbs)
  else none

/-- The element at a position, with its place. -/
def pick? (position : Int) (es : List Json) : Option (Nat × Json) := do
  let place ← place? position es.length
  return (place, ← es[place]?)

def first (model : Json) : Json := model.elements.head?.getD .null

def last (model : Json) : Json := model.elements.getLast?.getD .null

/-- The position is checked even where there is no array to pick from. -/
def index (model : Json) : List Operand → Except EvalError Json
  | [] => .error .missingIndex
  | o :: _ => do
    let argument ← o.value
    match argument.toInt64? with
    | none => .error (.invalidIndex argument)
    | some i => return (pick? i.toInt model.elements).elim .null (·.2)

def append (path : String) (model : Json) (os : List Operand) : Except EvalError Json :=
  match model with
  | .array es => return .array (es ++ (← Operand.sequence .any os))
  | _ => .error (.appendToOther path)

def keys : Json → Json
  | .object ms => .array ((Dictionary.keys ms).map .string)
  | _ => .null

end JsonPath.Collection
