import JsonPath.Evaluation
import JsonPath.Plan.Compile

/-! Reading a path: the answer that the options ask for. -/
namespace JsonPath

/-- The paths found; by a definite path only the last. -/
def Context.answerPaths (c : Context) : List String :=
  if c.definite then c.paths.getLast?.toList else c.paths

def Context.answer (c : Context) (o : Options) : Except EvalError Json :=
  if o.asPathList then .ok (.array (c.answerPaths.map .string))
  else do
    let v ← c.result
    return if o.alwaysList && c.definite then .array [v] else v

/-- What stands for a suppressed error. -/
def Options.emptyAnswer (o : Options) : Json :=
  if o.asPathList || o.alwaysList then .array [] else .null

namespace Plan

def read (p : Plan) (c : Configuration) (document : Json) : Except EvalError Json :=
  match (p.evaluate document document c).bind (·.answer c.options) with
  | .ok v => .ok v
  | .error err => if c.options.suppressErrors then .ok c.options.emptyAnswer else .error err

def readAll (p : Plan) (c : Configuration) (documents : List Json) :
    List (Except EvalError Json) :=
  documents.map (p.read c)

end Plan

/-- Reads a path given as text, under the standard configuration. -/
def read (text : String) (document : Json) : Except EvalError Json := do
  (← Plan.compile text).read .standard document

end JsonPath
