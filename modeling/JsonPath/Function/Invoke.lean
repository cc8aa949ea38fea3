import JsonPath.Function.Aggregate
import JsonPath.Function.Collection
import JsonPath.Function.Join
import JsonPath.Function.Text

/-! Calling a function on a value. -/
namespace JsonPath.Function

/-- The path of the value appears in messages only. -/
def invoke (f : Function) (path : String) (model : Json) (os : List Operand) :
    Except EvalError Json :=
  match f with
  | aggregate a => a.invoke model os
  | concat => Concat.invoke model os
  | length => .ok (Length.invoke model)
  | join => Join.invoke model os
  | first => .ok (Collection.first model)
  | last => .ok (Collection.last model)
  | index => Collection.index model os
  | append => Collection.append path model os
  | keys => .ok (Collection.keys model)

end JsonPath.Function
