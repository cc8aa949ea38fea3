import JsonPath.Binding
import JsonPath.Function.Invoke

/-! Following a chain of tokens through a value. -/
namespace JsonPath

/-- Where an evaluation stands. -/
structure Cursor where
  path : String
  parent : Parent
  value : Json

def Cursor.hit (c : Cursor) : Hit := ⟨c.path, c.parent, c.value⟩

namespace Token

/-- The result of a call on a value. Every parameter must be bound before the function sees any. -/
def invoke (resolve : Resolver) (e : Environment) (name path : String) (ps : List Parameter)
    (model : Json) : Except EvalError Json := do
  let f ← e.configuration.registry.lookup name
  let bound := f.bind e model ps
  match bound.findIdx? fun p => p.binding.isNone with
  | some i => .error (.unboundParameter i name)
  | none => f.invoke path model (bound.map (·.operand resolve))

/-- One step along the chain. A call changes the value only, not the place. -/
def step (resolve : Resolver) (e : Environment) (c : Cursor) : Token → Except EvalError Cursor
  | root symbol => .ok ⟨symbol.toString, .root, c.value⟩
  | property name =>
    match c.value with
    | .object ms =>
      match Dictionary.lookup? name ms with
      | some v => .ok ⟨c.path ++ Path.propertyText name, .property name, v⟩
      | none => .error (.noMember name c.path)
    | v => .error (.notAnObject name c.path v.kind)
  | index i =>
    match c.value with
    | .array es =>
      match Collection.pick? i.toInt es with
      | some (place, v) => .ok ⟨c.path ++ Path.indexText place, .element place, v⟩
      | none => .error (.noElement i.toInt c.path)
    | v => .error (.notAnArray i.toInt v.kind)
  | call name _ ps => return { c with value := ← invoke resolve e name c.path ps c.value }

/-- What a step records: a call its result, another token the value that it leaves at the end of the
chain. -/
def hits (before after : Cursor) (last : Bool) : Token → List Hit
  | call name .. => [⟨before.path ++ "." ++ name, before.parent, after.value⟩]
  | _ => if last then [after.hit] else []

/-- Follows a chain: the hits on the way, also of one that fails, and how it ended. -/
def walk (resolve : Resolver) (e : Environment) (c : Cursor) :
    List Token → List Hit × Except EvalError Unit
  | [] => ([], .ok ())
  | t :: ts =>
    match t.step resolve e c with
    | .error err => ([], .error err)
    | .ok next =>
      let (found, outcome) := walk resolve e next ts
      (t.hits c next ts.isEmpty ++ found, outcome)

end Token

/-- Follows a chain and records what it finds, also if it fails. -/
def Context.follow (c : Context) (resolve : Resolver) (start : Cursor) (ts : List Token) :
    Context × Except EvalError Unit :=
  let (found, outcome) := Token.walk resolve c.toEnvironment start ts
  (c.record found, outcome)

end JsonPath
