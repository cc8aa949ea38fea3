import JsonPath.Operand

/-! Functions on texts and sizes. -/
namespace JsonPath

/-- The part of a concatenation that comes from the value itself. -/
def Concat.base : Json → List Json
  | .array es => es.filter (!·.isNull)
  | .string s => [.string s]
  | .number n => [.number n]
  | _ => []

/-- The value's text followed by every string that the arguments give. -/
def Concat.invoke (model : Json) (os : List Operand) : Except EvalError Json :=
  return .string (.join ((base model ++ (← Operand.sequence .string os)).map Json.stringify))

def Length.invoke (model : Json) : Json :=
  match model.length? with
  | some n => .ofInt n
  | none => .null

end JsonPath
