import JsonPath.Context
import JsonPath.Json.Parser
import JsonPath.Operand
import JsonPath.Plan.Basic

/-! Binding the parameters of a call to the value that it is made on, and reading them. -/
namespace JsonPath

/-- Gives the value of a path. -/
abbrev Resolver := Closure → Except EvalError Json

namespace Binding

/-- A path becomes the first element of what it gives; other bindings stay as they are. -/
def toElement : Binding → Binding
  | path c => element c 0
  | b => b

/-- Moves an element to another position. -/
def moveTo? (i : Nat) : Binding → Option Binding
  | element c _ => some (element c i)
  | _ => none

def operand (resolve : Resolver) : Binding → Operand
  | json text _ =>
    .whole (match Json.parse? text with
      | some v => .ok v
      | none => .error (.malformedLiteral text))
  | path c => .whole (resolve c)
  | element c i => .element (resolve c) i

end Binding

namespace Source

/-- A `$` path is evaluated on the document, an `@` path on the value that the call is made on. -/
def bind? (e : Environment) (model : Json) : Source → Option Binding
  | literal text => some (.json text e.configuration)
  | path p =>
    some (.path ⟨p, if p.isRootPath then e.root else model, e.root, e.configuration⟩)
  | none => .none

end Source

namespace Parameter

/-- A parameter that is resolved keeps its binding, and so does one with nothing to bind. -/
def bind (e : Environment) (model : Json) (p : Parameter) : Parameter :=
  if p.resolved then p
  else
    match p.source.bind? e model with
    | some b => { p with binding := some b, resolved := true }
    | none => p

def bindAll (e : Environment) (model : Json) (ps : List Parameter) : List Parameter :=
  ps.map (bind e model)

def toElement (p : Parameter) : Parameter := { p with binding := p.binding.map Binding.toElement }

def operand (resolve : Resolver) (p : Parameter) : Operand :=
  match p.binding with
  | some b => b.operand resolve
  | none => .whole (.error (.unboundValue p.source.kind))

end Parameter

namespace Function

/-- The second argument of a join is read element by element. -/
def bind (f : Function) (e : Environment) (model : Json) (ps : List Parameter) : List Parameter :=
  let bound := Parameter.bindAll e model ps
  match f with
  | join => bound.modify 1 Parameter.toElement
  | _ => bound

end Function
end JsonPath
