import JsonPath.CommandLine.Error

/-! The words of a command line and the settings that they make. -/
namespace JsonPath

structure Settings where
  path : String
  /-- A file, or `-` for standard input. -/
  input : String
  /-- A file; standard output if there is none. -/
  output : Option String
  logLevel : String
  pretty : Bool
  alwaysList : Bool
  pathList : Bool
  suppressErrors : Bool
  hits : Bool

namespace CommandLine

/-- The options that take a value. -/
inductive Valued where
  | path
  | input
  | output
  | logLevel
  deriving DecidableEq, Repr

inductive Flag where
  | pretty
  | alwaysList
  | pathList
  | suppressErrors
  | hits
  deriving DecidableEq, Repr

inductive Word where
  | valued (o : Valued) (attached : Option String)
  | flag (f : Flag) (attached : Option String)
  | help (attached : Option String)
  /-- The word `--`, after which all words are plain. -/
  | divider
  | plain (s : String)
  | unknown

namespace Word

def ofLong (name : String) (attached : Option String) : Word :=
  match name with
  | "path" => valued .path attached
  | "input" => valued .input attached
  | "output" => valued .output attached
  | "log-level" => valued .logLevel attached
  | "pretty" => flag .pretty attached
  | "always-list" => flag .alwaysList attached
  | "path-list" => flag .pathList attached
  | "suppress-errors" => flag .suppressErrors attached
  | "hits" => flag .hits attached
  | "help" => help attached
  | _ => unknown

/-- The value that follows a letter in the same word, with or without an equals sign. -/
def attachedToLetter : List Char → Option String
  | [] => none
  | '=' :: cs => some (.ofList cs)
  | cs => some (.ofList cs)

def ofShort (letter : Char) (rest : List Char) : Word :=
  match letter with
  | 'p' => valued .path (attachedToLetter rest)
  | 'i' => valued .input (attachedToLetter rest)
  | 'o' => valued .output (attachedToLetter rest)
  | 'h' => help none
  | _ => unknown

/-- A single hyphen is a plain word. -/
def ofString (s : String) : Word :=
  match s.toList with
  | ['-', '-'] => divider
  | '-' :: '-' :: cs =>
    ofLong (.ofList (cs.takeWhile (· != '=')))
      (match cs.dropWhile (· != '=') with
      | _ :: v => some (.ofList v)
      | [] => none)
  | '-' :: letter :: rest => ofShort letter rest
  | _ => plain s

end Word

/-- What the words so far have set. -/
structure Collected where
  values : List (Valued × String)
  flags : List Flag

namespace Collected

def value? (c : Collected) (o : Valued) : Option String := c.values.lookup o

/-- Each option is given once, and files have names. -/
def set (c : Collected) (o : Valued) (v : String) : Except UsageError Collected :=
  if (c.value? o).isSome then .error .repeated
  else if v.isEmpty && (o == .input || o == .output) then .error .invalidValue
  else .ok { c with values := (o, v) :: c.values }

def raise (c : Collected) (f : Flag) : Except UsageError Collected :=
  if c.flags.contains f then .error .repeated else .ok { c with flags := f :: c.flags }

/-- Settles an option that stands by itself, with the word that was taken for its value. -/
def settle (c : Collected) : Option (Valued × Option String) → Except UsageError Collected
  | none => .ok c
  | some (o, some v) => c.set o v
  | some (_, none) => .error .invalidValue

/-- Takes the words in order. The last option that stands by itself is settled when the next option
or the end comes, so an unknown word is reported before any fault of that option. -/
def take (c : Collected) (last : Option (Valued × Option String)) :
    List Word → Except UsageError Collected
  | [] => c.settle last
  | .valued o none :: ws => do (← c.settle last).take (some (o, none)) ws
  | .valued o (some v) :: ws => do (← (← c.settle last).set o v).take none ws
  | .flag f none :: ws => do (← (← c.settle last).raise f).take none ws
  | .help none :: _ => do
    let _ ← c.settle last
    .error .help
  | .flag _ (some _) :: _ | .help (some _) :: _ => .error .needlessValue
  | .plain v :: ws =>
    match last with
    | some (o, none) => c.take (some (o, some v)) ws
    | _ => .error .unknownWord
  | [.divider] => c.settle last
  | .divider :: _ :: _ | .unknown :: _ => .error .unknownWord

def settings (c : Collected) : Except UsageError Settings :=
  match c.value? .path with
  | none => .error .missingPath
  | some path => .ok {
      path
      input := (c.value? .input).getD "-"
      output := c.value? .output
      logLevel := (c.value? .logLevel).getD "warn"
      pretty := c.flags.contains .pretty
      alwaysList := c.flags.contains .alwaysList
      pathList := c.flags.contains .pathList
      suppressErrors := c.flags.contains .suppressErrors
      hits := c.flags.contains .hits }

end Collected
end CommandLine

/-- The settings that the words of a command line make. -/
def Settings.parse (words : List String) : Except UsageError Settings := do
  (← CommandLine.Collected.take ⟨[], []⟩ none (words.map .ofString)).settings

end JsonPath
