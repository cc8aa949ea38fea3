import JsonPath.Text.Reader

/-! Quoted strings with backslash escapes, read by the rules of a dialect. -/
namespace JsonPath.Text

/-- Which strings a dialect admits. -/
structure Dialect where
  quote : Char
  /-- Whether a character other than the quote and the backslash may stand for itself. -/
  bare : Char → Bool
  /-- What a character after a backslash stands for, `u` apart. -/
  escape? : Char → Option Char
  /-- Whether two `\u` escapes may form a surrogate pair. -/
  pairs : Bool

/-- The escapes that all dialects share. -/
def escape? (c : Char) : Option Char :=
  match c with
  | '"' => some '"'
  | '\\' => some '\\'
  | '/' => some '/'
  | 'b' => some (Char.ofNat 8)
  | 'f' => some (Char.ofNat 12)
  | 'n' => some '\n'
  | 'r' => some '\r'
  | 't' => some '\t'
  | _ => none

def hexDigit? (c : Char) : Option Nat :=
  if '0' ≤ c ∧ c ≤ '9' then some (c.toNat - 48)
  else if 'a' ≤ c ∧ c ≤ 'f' then some (c.toNat - 87)
  else if 'A' ≤ c ∧ c ≤ 'F' then some (c.toNat - 55)
  else none

/-- The number that four hexadecimal digits write. -/
def hexUnit? (a b c d : Char) : Option Nat := do
  return ((← hexDigit? a) * 16 + (← hexDigit? b)) * 256 + ((← hexDigit? c) * 16 + (← hexDigit? d))

/-- The character of a code point; surrogates have none. -/
def char? (n : Nat) : Option Char := if n.isValidChar then some (Char.ofNat n) else none

/-- The character of a surrogate pair. -/
def pair? (high low : Nat) : Option Char :=
  if 0xd800 ≤ high ∧ high < 0xdc00 ∧ 0xdc00 ≤ low ∧ low < 0xe000 then
    char? (0x10000 + (high - 0xd800) * 0x400 + (low - 0xdc00))
  else none

private def prepend (c : Char) (r : List Char × List Char) : List Char × List Char := (c :: r.1, r.2)

namespace Dialect

/-- The characters up to the closing quote, which is taken too. -/
def body (l : Dialect) : Reader (List Char)
  | '\\' :: 'u' :: a :: b :: c :: d :: s => do
    let n ← hexUnit? a b c d
    match char? n with
    | some x => (body l s).map (prepend x)
    | none =>
      match s with
      | '\\' :: 'u' :: e :: f :: g :: h :: s => do
        let m ← hexUnit? e f g h
        let x ← if l.pairs then pair? n m else none
        (body l s).map (prepend x)
      | _ => none
  | '\\' :: c :: s => do
    let x ← l.escape? c
    (body l s).map (prepend x)
  | c :: s =>
    if c = l.quote then some ([], s)
    else if c ≠ '\\' ∧ l.bare c then (body l s).map (prepend c)
    else none
  | [] => none

def read (l : Dialect) : Reader String
  | c :: s => if c = l.quote then (l.body s).map fun r => (.ofList r.1, r.2) else none
  | [] => none

theorem body_quote (l : Dialect) (hl : l.quote ≠ '\\') (s : List Char) :
    l.body (l.quote :: s) = some ([], s) := by
  rw [body]
  · exact if_pos rfl
  · rintro a b c d s h -
    exact hl h
  · rintro c s h -
    exact hl h

theorem body_escape (l : Dialect) {c x : Char} (hc : c ≠ 'u') (hx : l.escape? c = some x)
    (s : List Char) : l.body ('\\' :: c :: s) = (l.body s).map fun r => (x :: r.1, r.2) := by
  rw [body, hx]
  · rfl
  · rintro a b d e s h -
    exact hc h

theorem body_unicode (l : Dialect) {a b c d x : Char} {n : Nat} (hn : hexUnit? a b c d = some n)
    (hx : char? n = some x) (s : List Char) :
    l.body ('\\' :: 'u' :: a :: b :: c :: d :: s) = (l.body s).map fun r => (x :: r.1, r.2) := by
  rw [body.eq_def]
  simp only [hn, Option.bind_eq_bind, Option.bind_some, hx]
  rfl

theorem body_bare (l : Dialect) {c : Char} (hq : c ≠ l.quote) (hs : c ≠ '\\')
    (hb : l.bare c = true) (s : List Char) :
    l.body (c :: s) = (l.body s).map fun r => (c :: r.1, r.2) := by
  rw [body, if_neg hq, if_pos ⟨hs, hb⟩]
  · rfl
  · rintro a b d e s h -
    exact hs h
  · rintro d s h -
    exact hs h

end Dialect
end JsonPath.Text
