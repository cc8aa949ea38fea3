import JsonPath.Json.Number
import JsonPath.Text.Reader

/-! Numbers as they are written: reading them off a text, and the value each stands for. -/
namespace JsonPath

/-- The exponent of a numeral, `e-07`. -/
structure Numeral.Exponent where
  negative : Bool
  digits : List Char

/-- A written number, `-12.50e-07`. -/
structure Numeral where
  negative : Bool
  whole : List Char
  fraction : Option (List Char)
  exponent : Option Numeral.Exponent

namespace Numeral

open Reader

def digits : Reader (List Char) := many1 Char.isDigit

/-- Whether there is a minus sign, which is taken. -/
def minus : Reader Bool := char '-' *> pure true <|> pure false

def readExponent : Reader Exponent := do
  char 'e' <|> char 'E'
  let negative ← char '-' *> pure true <|> char '+' *> pure false <|> pure false
  let ds ← digits
  return ⟨negative, ds⟩

/-- A fraction or an exponent that is not complete is left unread. -/
def read : Reader Numeral := do
  let negative ← minus
  let whole ← digits
  let fraction ← optional (char '.' *> digits)
  let exponent ← optional readExponent
  return ⟨negative, whole, fraction, exponent⟩

def natOfDigits (ds : List Char) : Nat := Nat.ofDigitChars 10 ds 0

/-- Appends digits to a significand while it stays below `2 ^ 64`. The rest is unread. -/
def absorb (significand : Nat) : List Char → Nat × List Char
  | [] => (significand, [])
  | d :: ds =>
    let longer := Nat.ofDigitChars 10 [d] significand
    if longer < UInt64.size then absorb longer ds else (significand, d :: ds)

/-- Of the significand's digits those of the whole part that do not fit still count as places; those
of the fraction are dropped. -/
def significand (n : Numeral) : Nat × Int :=
  let (s, dropped) := absorb 0 n.whole
  let fraction := n.fraction.getD []
  let (s, ignored) := absorb s fraction
  (s, dropped.length - (fraction.length - ignored.length))

/-- The power of ten as a double. -/
def powerOfTen (k : Nat) : Float := Float.ofScientific 1 false k

/-- The greatest power of ten that is a double. -/
def maxPower : Nat := 308

/-- Divides by `10 ^ k`, by one representable power at a time. -/
def divideByPower (f : Float) (k : Nat) : Float :=
  if k ≤ maxPower then f / powerOfTen k
  else if f == 0 then f
  else divideByPower (f / powerOfTen maxPower) (k - maxPower)
termination_by k
decreasing_by simp only [maxPower] at *; omega

/-- `s * 10 ^ e`, rounded after each operation. -/
def scale? (s : Nat) (e : Int) : Option Float :=
  let f := s.toUInt64.toFloat
  if e < 0 then some (divideByPower f e.natAbs)
  else if e.toNat ≤ maxPower then some (f * powerOfTen e.toNat)
  else if s = 0 then some f
  else none

private def clamp (e : Int) : Int := max Int32.minValue.toInt (min e Int32.maxValue.toInt)

/-- The magnitude as a double. An exponent that does not fit 32 bits makes a nonzero number zero or
is refused, by its sign. -/
def magnitude? (n : Numeral) : Option Float :=
  let (s, places) := n.significand
  match n.exponent with
  | none => scale? s places
  | some x =>
    let e : Int := natOfDigits x.digits
    if e ≤ Int32.maxValue.toInt then scale? s (clamp (if x.negative then places - e else places + e))
    else if x.negative ∨ s = 0 then some 0
    else none

def hasLeadingZero (n : Numeral) : Bool :=
  match n.whole with
  | '0' :: _ :: _ => true
  | _ => false

/-- The integer that a numeral without fraction and exponent writes; `-0` is none. -/
def toInt? (n : Numeral) : Option Int :=
  match n.fraction, n.exponent with
  | none, none =>
    let magnitude := natOfDigits n.whole
    if n.negative then if magnitude = 0 then none else some (-magnitude) else some magnitude
  | _, _ => none

def toDouble? (n : Numeral) : Option Double := do
  let x ← n.magnitude?
  Double.ofFloat? (if n.negative then -x else x)

/-- Integers that fit 64 bits are kept exactly; all others become doubles. Superfluous leading zeros
and overflow are refused. -/
def value? (n : Numeral) : Option Number :=
  if n.hasLeadingZero then none
  else
    match n.toInt?.bind Integer.ofInt? with
    | some i => some (.integer i)
    | none => n.toDouble?.map .double

end Numeral

/-- A numeral that has a value. -/
def Number.read : Reader Number := fun s => do
  let (n, rest) ← Numeral.read s
  return (← n.value?, rest)

end JsonPath
