import JsonPath.Configuration

/-! What an evaluation knows and what it has found. -/
namespace JsonPath

/-- The step that led to a value. -/
inductive Parent where
  | none
  | root
  | property (name : String)
  | element (position : Nat)
  deriving DecidableEq, Repr

/-- A value that was found, with its path. -/
structure Hit where
  path : String
  parent : Parent
  value : Json

/-- The settings and the document that `$` stands for. -/
structure Environment where
  configuration : Configuration
  root : Json

/-- The hits of one evaluation, in the order of their discovery. -/
structure Context extends Environment where
  definite : Bool
  hits : List Hit

namespace Parent

def toJson : Parent → Json
  | none => .string "NoOp"
  | root => .string "Root"
  | property name => .object [("Property", .string name)]
  | element position => .object [("ArrayIndex", .ofInt position)]

end Parent

namespace Hit

def toJson (h : Hit) : Json :=
  .object [("parent", h.parent.toJson), ("path", .string h.path), ("value", h.value)]

end Hit

namespace Context

def start (e : Environment) (definite : Bool) : Context := ⟨e, definite, []⟩

def record (c : Context) (hs : List Hit) : Context := { c with hits := c.hits ++ hs }

def count (c : Context) : Nat := c.hits.length

def paths (c : Context) : List String := c.hits.map (·.path)

def values (c : Context) : Json := .array (c.hits.map (·.value))

/-- The last value found by a definite path, all values of another. -/
def result (c : Context) : Except EvalError Json :=
  if c.definite then
    match c.hits.getLast? with
    | some h => .ok h.value
    | none => .error .noResult
  else .ok c.values

end Context
end JsonPath
