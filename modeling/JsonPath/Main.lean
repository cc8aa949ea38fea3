import JsonPath.CommandLine.Run

/-! The command itself. -/
namespace JsonPath

def helpText : String :=
  "Evaluate a path, including function calls, against a JSON document\n\n" ++
    "Usage: jsonpath-cli [OPTIONS] --path <PATH>\n\n" ++
    "Options:\n" ++
    "  -p, --path <PATH>            Path to evaluate\n" ++
    "  -i, --input <INPUT>          JSON document file, '-' for stdin [default: -]\n" ++
    "  -o, --output <OUTPUT>        Output file path (defaults to stdout)\n" ++
    "      --pretty                 Pretty-print the result\n" ++
    "      --always-list            Wrap the result in an array\n" ++
    "      --path-list              Print the matched paths instead of values\n" ++
    "      --suppress-errors        Print null instead of failing\n" ++
    "      --hits                   Print every recorded hit (path, parent, value)\n" ++
    "      --log-level <LEVEL>      Log level [default: warn]\n" ++
    "  -h, --help                   Print help\n"

def UsageError.message : UsageError → String
  | missingPath => "error: the option --path is required"
  | invalidValue => "error: an option has no valid value"
  | repeated => "error: an option is given more than once"
  | unknownWord => "error: unexpected argument"
  | needlessValue => "error: a flag is given a value"
  | help => helpText

partial def readLines (input : IO.FS.Stream) (read : String) : IO String := do
  let line ← input.getLine
  if line.isEmpty then return read else readLines input (read ++ line)

def readFile? (name : String) : IO (Option String) := do
  try return some (← IO.FS.readFile name) catch _ => return none

def perform (s : Settings) : IO UInt32 := do
  let standardInput ← if s.input = "-" then readLines (← IO.getStdin) "" else pure ""
  let content ← if s.input = "-" then pure none else readFile? s.input
  let outcome := s.run standardInput fun name => if name = s.input then content else none
  match outcome.result with
  | .error e =>
    IO.eprintln ("Error: " ++ e.message)
    return 1
  | .ok () =>
    if let some name := s.output then
      if let some text := outcome.files name then IO.FS.writeFile name text
    IO.print outcome.printed
    return 0

end JsonPath

def main (words : List String) : IO UInt32 :=
  match JsonPath.Settings.parse words with
  | .ok s => JsonPath.perform s
  | .error .help => do
    IO.print JsonPath.helpText
    return 0
  | .error e => do
    IO.eprintln e.message
    return 2
