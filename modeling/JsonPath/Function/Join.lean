import JsonPath.Operand

/-! Joining the elements of a value into one string. -/
namespace JsonPath.Join

def defaultDelimiter : String := ", "

/-- What the first argument gives, as a string. -/
def delimiter : List Operand → Except EvalError String
  | [] => .ok defaultDelimiter
  | o :: _ => do
    let given := ElementType.any.coerce (← o.value)
    return (given.head?.map Json.stringify).getD defaultDelimiter

/-- The argument that replaces elements, if there is one. -/
def replacement? {α : Type} (arguments : List α) : Option α := arguments[1]?

/-- What stands for the element at a position: all that the replacement gives there for an array,
the first of it for any other element. -/
def replace (element : Json) (position : Nat) : Option Operand → Except EvalError Json
  | none => .ok element
  | some o => do
    let given := ElementType.any.coerce (← (o.moveTo position).value)
    return if element.isArray then .array given else given.head?.getD .null

/-- A value that is not an array is its own one element. -/
def parts : Json → List Json
  | .array es => es
  | v => [v]

/-- Elements that end up `null` are left out. -/
def invoke (model : Json) (os : List Operand) : Except EvalError Json := do
  let d ← delimiter os
  let replaced ← (parts model).zipIdx.mapM fun p => replace p.1 p.2 (replacement? os)
  return .string (d.intercalate ((replaced.filter (!·.isNull)).map Json.stringify))

end JsonPath.Join
