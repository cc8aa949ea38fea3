import JsonPath.Answer
import JsonPath.CommandLine.Settings

/-! Running the command: from the settings and the files to the text that is written. -/
namespace JsonPath

/-- The content of each file that can be read. -/
abbrev Files := String → Option String

def Files.write (fs : Files) (name content : String) : Files :=
  fun n => if n = name then some content else fs n

namespace Settings

def options (s : Settings) : Options := ⟨s.alwaysList, s.pathList, s.suppressErrors⟩

def configuration (s : Settings) : Configuration := ⟨.standard, s.options⟩

/-- All hits, or the answer that the options ask for. -/
def answer (s : Settings) (p : Plan) (document : Json) : Except EvalError Json :=
  if s.hits then
    return .array ((← p.evaluate document document s.configuration).hits.map Hit.toJson)
  else p.read s.configuration document

def layOut (s : Settings) (v : Json) : String := if s.pretty then v.indentedText else v.text

/-- The document is read before the path is looked at. -/
def render (s : Settings) (input : Option String) : Except CommandError String := do
  let some text := input | .error .file
  let some document := Json.parse? text | .error .document
  let plan ← (Plan.compile s.path).mapError .ofEvalError
  let v ← (s.answer plan document).mapError .ofEvalError
  return s.layOut v

/-- The text of the document, from a file or from standard input. -/
def inputText (s : Settings) (standardInput : String) (fs : Files) : Option String :=
  if s.input = "-" then some standardInput else fs s.input

/-- What a run leaves behind: the files, what it prints, and how it ends. -/
structure Outcome where
  files : Files
  printed : String
  result : Except CommandError Unit

/-- Nothing is written by a run that fails. -/
def run (s : Settings) (standardInput : String) (fs : Files) : Outcome :=
  match s.render (s.inputText standardInput fs) with
  | .error e => ⟨fs, "", .error e⟩
  | .ok text =>
    match s.output with
    | some name => ⟨fs.write name text, "", .ok ()⟩
    | none => ⟨fs, text ++ "\n", .ok ()⟩

end Settings
end JsonPath
