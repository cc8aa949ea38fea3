import JsonPath.ElementType
import JsonPath.Error

/-! Arguments as a function sees them: values, or the errors met in getting them. -/
namespace JsonPath

inductive Operand where
  | whole (value : Except EvalError Json)
  /-- One element of a value, by its position. -/
  | element (value : Except EvalError Json) (position : Nat)

namespace Operand

/-- An element that is not there is `null`. -/
def value : Operand → Except EvalError Json
  | whole v => v
  | element v i => v.map fun v => (v.element? i).getD .null

/-- Moves an element to another position. -/
def moveTo (i : Nat) : Operand → Operand
  | whole v => whole v
  | element v _ => element v i

/-- All elements of the type, in order; the first error if there is one. -/
def sequence (t : ElementType) (os : List Operand) : Except EvalError (List Json) :=
  return (← os.mapM value).flatMap t.coerce

end Operand
end JsonPath
