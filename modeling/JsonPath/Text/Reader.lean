/-! Readers of text: a reader takes a beginning of the remaining characters or fails. Choice is
ordered and gives back what a failed alternative took. -/
namespace JsonPath

abbrev Reader (α : Type) := StateT (List Char) Option α

namespace Reader

variable {α : Type}

/-- The value of a reader that takes the whole text. -/
def all? (r : Reader α) (s : List Char) : Option α :=
  match r s with
  | some (a, []) => some a
  | _ => none

def satisfy (p : Char → Bool) : Reader Char
  | c :: s => if p c then some (c, s) else none
  | [] => none

def char (c : Char) : Reader Unit
  | d :: s => if d = c then some ((), s) else none
  | [] => none

def word : List Char → Reader Unit
  | [], s => some ((), s)
  | c :: cs, d :: s => if d = c then word cs s else none
  | _ :: _, [] => none

/-- As many characters as satisfy the predicate. -/
def many (p : Char → Bool) : Reader (List Char) := fun s => some (s.takeWhile p, s.dropWhile p)

def many1 (p : Char → Bool) : Reader (List Char) := do
  let c ← satisfy p
  let cs ← many p
  return c :: cs

/-- Skips characters on both sides. -/
def padded (p : Char → Bool) (r : Reader α) : Reader α := many p *> r <* many p

/-- Reads on until the reader fails or has succeeded `n` times. -/
def repeatUpTo (r : Reader α) : Nat → List Char → List α × List Char
  | 0, s => ([], s)
  | n + 1, s =>
    match r s with
    | some (a, rest) =>
      let (as, rest) := repeatUpTo r n rest
      (a :: as, rest)
    | none => ([], s)

/-- As often as the reader succeeds. The bound is no limit for one that takes a character each
time. -/
def repeated (r : Reader α) : Reader (List α) := fun s => some (repeatUpTo r s.length s)

/-- Items with separators between them. -/
def sepBy1 (item : Reader α) (separator : Reader Unit) : Reader (List α) := do
  let a ← item
  let as ← repeated (separator *> item)
  return a :: as

def sepBy (item : Reader α) (separator : Reader Unit) : Reader (List α) :=
  sepBy1 item separator <|> pure []

/-- As `sepBy`, and the last item may have a separator after it. -/
def sepEndBy (item : Reader α) (separator : Reader Unit) : Reader (List α) :=
  (sepBy1 item separator <* optional separator) <|> pure []

end Reader
end JsonPath
