import JsonPath.Path.Basic
import JsonPath.Path.Literal

/-! Reading path text. -/
namespace JsonPath.Path

open Reader

def readRoot : Reader Root :=
  char '$' *> pure .document <|> char '@' *> pure .current

def isIdentifierStart (c : Char) : Bool := c.isAlpha || c == '_'

def isIdentifierRest (c : Char) : Bool := c.isAlphanum || c == '_' || c == '-'

/-- ASCII letters, digits, underscores and hyphens, of which the first is a letter or an
underscore. -/
def readIdentifier : Reader String := do
  let c ← satisfy isIdentifierStart
  let cs ← many isIdentifierRest
  return .ofList (c :: cs)

/-- A position in 64 bits; leading zeros do no harm. -/
def readIndex : Reader Int64 := fun s => do
  let (negative, s) ← Numeral.minus s
  let (ds, s) ← Numeral.digits s
  let magnitude : Int := Numeral.natOfDigits ds
  let i := if negative then -magnitude else magnitude
  if Int64.minValue.toInt ≤ i ∧ i ≤ Int64.maxValue.toInt then return (.ofInt i, s) else none

/-- A name or a position in brackets. -/
def readBracketed : Reader Segment :=
  char '[' *> spaced (.property <$> readString <|> .index <$> readIndex) <* char ']'

/-- Arguments in parentheses; blanks may stand before them but not after. -/
def readArguments (argument : Reader Argument) : Reader (List Argument) :=
  spaced (char '(') *> sepBy (spaced argument) comma <* char ')'

/-- A name after a dot, which is a call if arguments follow. -/
def readDotted (argument : Reader Argument) : Reader Segment := do
  char '.'
  let name ← readIdentifier
  match ← optional (readArguments argument) with
  | some as => return .call name as
  | none => return .property name

def readSegment (argument : Reader Argument) : Reader Segment :=
  readDotted argument <|> readBracketed

/-- Paths whose calls nest less than `bound` deep; no literal in them nests deeper than
`literals`. -/
def read (literals : Nat) : Nat → Reader Path
  | 0 => failure
  | bound + 1 => fun s =>
    let argument := .path <$> read literals bound <|> .literal <$> readLiteral literals
    (Path.mk <$> readRoot <*> repeated (readSegment argument)) s

/-- The path that a text writes. Nothing in it nests deeper than the text is long. -/
def parse? (text : String) : Option Path :=
  let s := text.toList
  (spaced (read (s.length + 1) (s.length + 1))).all? s

end JsonPath.Path
