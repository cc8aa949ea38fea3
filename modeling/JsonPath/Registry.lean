import JsonPath.Dictionary
import JsonPath.Error
import JsonPath.Function.Basic
import JsonPath.Text.Debug

/-! The names under which functions can be called. Any name can be given to a function of the
library, but no other functions can be registered. -/
namespace JsonPath

structure Registry where
  /-- In the order of the names. -/
  functions : List (String × Function)

namespace Registry

def empty : Registry := ⟨[]⟩

/-- A name that is taken gets the new function. -/
def register (r : Registry) (name : String) (f : Function) : Registry :=
  ⟨Dictionary.insert name f r.functions⟩

def standard : Registry :=
  ⟨Dictionary.ofList
    [("sum", .aggregate .sum), ("min", .aggregate .min), ("max", .aggregate .max),
      ("avg", .aggregate .average), ("stddev", .aggregate .deviation),
      ("concat", .concat), ("length", .length), ("size", .length), ("join", .join),
      ("first", .first), ("last", .last), ("index", .index), ("append", .append),
      ("keys", .keys)]⟩

def contains (r : Registry) (name : String) : Bool := Dictionary.contains name r.functions

def lookup (r : Registry) (name : String) : Except EvalError Function :=
  match Dictionary.lookup? name r.functions with
  | some f => .ok f
  | none => .error (.unknownFunction name)

/-- In increasing order. -/
def names (r : Registry) : List String := Dictionary.keys r.functions

/-- A listing for diagnosis. -/
def describe (r : Registry) : String :=
  "FunctionRegistry \x7b functions: [" ++ ", ".intercalate (r.names.map Text.debugQuote) ++
    "] \x7d"

end Registry
end JsonPath
