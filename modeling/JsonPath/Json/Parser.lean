import JsonPath.Json.Basic
import JsonPath.Json.Numeral
import JsonPath.Text.Quoted

/-! Reading strict JSON text. -/
namespace JsonPath.Json

open Reader

/-- Arrays and objects nest at most this deep. -/
def maxDepth : Nat := 127

def isBlank (c : Char) : Bool := c == ' ' || c == '\t' || c == '\n' || c == '\r'

/-- Controls below `U+0020` must be escaped. -/
def dialect : Text.Dialect where
  quote := '"'
  bare c := decide (32 ≤ c.toNat)
  escape? := Text.escape?
  pairs := true

def readString : Reader String := dialect.read

/-- Values whose containers nest at most `depth` deep. -/
def read : Nat → Reader Json := fun depth s =>
  (word ['n', 'u', 'l', 'l'] *> pure null <|>
    word ['t', 'r', 'u', 'e'] *> pure (bool true) <|>
    word ['f', 'a', 'l', 's', 'e'] *> pure (bool false) <|>
    string <$> readString <|>
    number <$> Number.read <|>
    match depth with
    | 0 => failure
    | depth + 1 =>
      let item := padded isBlank (read depth)
      let member := do
        let name ← padded isBlank readString
        char ':'
        return (name, ← item)
      array <$> (char '[' *> many isBlank *> sepBy item (char ',') <* char ']') <|>
        object <$> Dictionary.ofList <$>
          (char '{' *> many isBlank *> sepBy member (char ',') <* char '}')) s

/-- The value of a JSON text. -/
def parse? (text : String) : Option Json := (padded isBlank (read maxDepth)).all? text.toList

end JsonPath.Json
