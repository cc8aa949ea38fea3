import JsonPath.Json.Basic
import JsonPath.Json.Numeral
import JsonPath.Text.Blank
import JsonPath.Text.Quoted

/-! Literal arguments of function calls: JSON values with blanks of all kinds around them, single or
double quotes, and an optional comma after the last element or member. -/
namespace JsonPath.Path

open Reader

def spaced {α : Type} (r : Reader α) : Reader α := padded Text.isBlank r

/-- Every character but the quote and the backslash stands for itself. -/
def dialect (quote : Char) : Text.Dialect where
  quote := quote
  bare _ := true
  escape? c := if c = '\'' then some '\'' else Text.escape? c
  pairs := false

def readString : Reader String := (dialect '\'').read <|> (dialect '"').read

def comma : Reader Unit := spaced (char ',')

def enclosed {α : Type} (opening closing : Char) (r : Reader α) : Reader α :=
  spaced (char opening) *> r <* spaced (char closing)

/-- Literals whose containers nest less than `bound` deep. -/
def readLiteral : Nat → Reader Json
  | 0 => failure
  | bound + 1 => fun s =>
    let item := readLiteral bound
    let member := do
      let name ← spaced readString
      spaced (char ':')
      return (name, ← item)
    spaced
      (word ['n', 'u', 'l', 'l'] *> pure Json.null <|>
        word ['t', 'r', 'u', 'e'] *> pure (Json.bool true) <|>
        word ['f', 'a', 'l', 's', 'e'] *> pure (Json.bool false) <|>
        Json.number <$> Number.read <|>
        Json.string <$> readString <|>
        Json.array <$> enclosed '[' ']' (sepEndBy item comma) <|>
        Json.object <$> Dictionary.ofList <$> enclosed '{' '}' (sepEndBy member comma)) s

end JsonPath.Path
