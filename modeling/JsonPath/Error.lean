import JsonPath.Json.Printer
import JsonPath.Path.Basic

/-! Why an evaluation fails, and how that is reported. -/
namespace JsonPath

inductive ErrorKind where
  | unboundParameter
  | unknownFunction
  | invalidArgument
  | invalidJson
  | invalidPath
  | pathNotFound
  deriving DecidableEq, Repr

inductive EvalError where
  /-- A call reached its function with nothing bound to one of its parameters. -/
  | unboundParameter (position : Nat) (function : String)
  /-- A parameter of the named kind was read with nothing bound to it. -/
  | unboundValue (kind : String)
  | unknownFunction (name : String)
  | emptyAggregation
  | missingIndex
  | invalidIndex (argument : Json)
  | appendToOther (path : String)
  /-- The text of a literal is no JSON text. -/
  | malformedLiteral (text : String := "")
  | malformedPath (text : String)
  | notAnObject (property path found : String)
  | notAnArray (index : Int) (found : String)
  | noMember (property path : String)
  | noElement (index : Int) (path : String)
  | noResult

namespace ErrorKind

def label : ErrorKind → String
  | unboundParameter => "Unbound Parameter"
  | unknownFunction => "Unknown Function"
  | invalidArgument => "Invalid Argument"
  | invalidJson => "Invalid JSON"
  | invalidPath => "Invalid Path"
  | pathNotFound => "Path Not Found"

def message (k : ErrorKind) (detail : String) : String := k.label ++ ": " ++ detail

end ErrorKind

namespace EvalError

def kind : EvalError → ErrorKind
  | unboundParameter .. | unboundValue _ => .unboundParameter
  | unknownFunction _ => .unknownFunction
  | emptyAggregation | missingIndex | invalidIndex _ | appendToOther _ => .invalidArgument
  | malformedLiteral _ => .invalidJson
  | malformedPath _ => .invalidPath
  | notAnObject .. | notAnArray .. | noMember .. | noElement .. | noResult => .pathNotFound

/-- What a parser says of a malformed literal or path is left out. -/
def detail : EvalError → String
  | unboundParameter position function =>
    "Parameter " ++ toString position ++ " of '" ++ function ++ "' has no late binding"
  | unboundValue kind => kind ++ " parameter has no late binding"
  | unknownFunction name => name
  | emptyAggregation =>
    "Aggregation function attempted to calculate value using empty array"
  | missingIndex => "index() requires an integer argument"
  | invalidIndex argument => "index() argument must be an integer, got " ++ argument.text
  | appendToOther path =>
    "append() can only be applied to arrays, " ++ path ++ " is not an array"
  | malformedLiteral _ => ""
  | malformedPath text => text ++ ". "
  | notAnObject property path found =>
    "Expected to find an object with property " ++ Path.propertyText property ++ " in path " ++
      path ++ " but found " ++ found
  | notAnArray index found =>
    "Filter: " ++ Path.indexText index ++
      " can only be applied to arrays. Current context is: " ++ found
  | noMember property path => "No results for path: " ++ path ++ Path.propertyText property
  | noElement index path => "No results for path: " ++ path ++ Path.indexText index
  | noResult => "No results for path"

def message (e : EvalError) : String := e.kind.message e.detail

end EvalError
end JsonPath
