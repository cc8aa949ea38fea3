import JsonPath.Error

/-! Why a run of the command fails. -/
namespace JsonPath

/-- What is wrong with the words of a command line. A request for help counts as well. -/
inductive UsageError where
  | missingPath
  | invalidValue
  | repeated
  | unknownWord
  | needlessValue
  | help
  deriving DecidableEq, Repr

inductive CommandError where
  /-- The path text is malformed. -/
  | path (text : String)
  | evaluation (e : EvalError)
  | file
  /-- The document is malformed. -/
  | document

/-- How the command reports an error of the library. -/
def ErrorKind.report : ErrorKind → String → String
  | .invalidPath, detail => "Parse error: " ++ detail
  | k, detail => "Evaluation error: " ++ k.message detail

namespace CommandError

def ofEvalError : EvalError → CommandError
  | .malformedPath text => path text
  | e => evaluation e

def message : CommandError → String
  | path text => ErrorKind.invalidPath.report (EvalError.malformedPath text).detail
  | evaluation e => e.kind.report e.detail
  | file => "IO error: "
  | document => "JSON error: "

end CommandError
end JsonPath
