import JsonPath.Plan.Height
import JsonPath.Walk

/-! Evaluating plans on documents. -/
namespace JsonPath

namespace Plan

/-- Evaluates on a document, given the values of the paths among the arguments. -/
def evaluateWith (resolve : Resolver) (p : Plan) (document : Json) (e : Environment) :
    Except EvalError Context :=
  match (Context.start e p.isDefinite).follow resolve ⟨"", .none, document⟩ p.chain with
  | (c, .ok ()) => .ok c
  | (_, .error err) => .error err

end Plan

namespace Closure

/-- The value of a path whose plan is at most `bound` high. -/
def valueWithin : Nat → Resolver
  | 0, _ => .error .noResult
  | bound + 1, c => do
    (← c.plan.evaluateWith (valueWithin bound) c.document ⟨c.configuration, c.root⟩).result

def value (c : Closure) : Except EvalError Json := valueWithin c.height c

end Closure

namespace Parameter

def resolve (p : Parameter) : Operand := p.operand Closure.value

def value (p : Parameter) : Except EvalError Json := p.resolve.value

end Parameter

namespace Plan

def evaluate (p : Plan) (document root : Json) (c : Configuration) : Except EvalError Context :=
  p.evaluateWith Closure.value document ⟨c, root⟩

end Plan
end JsonPath
