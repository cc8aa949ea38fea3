import JsonPath.Decimal.Shortest
import JsonPath.Text.Integer

/-! How the digits of a decimal number are written: positional or scientific. -/
namespace JsonPath.Decimal

/-- The decimal point positions, counted from the first digit, at which a number is written without
an exponent. -/
structure Layout where
  least : Int
  greatest : Int

namespace Layout

private def zeros (n : Nat) : List Char := List.replicate n '0'

private def mantissa : List Char → List Char
  | [] => []
  | [d] => [d]
  | d :: ds => d :: '.' :: ds

/-- Digits around the point; an integral number keeps `.0`. -/
def positional (digits : List Char) (point : Int) : List Char :=
  if point ≤ 0 then '0' :: '.' :: zeros (-point).toNat ++ digits
  else
    let whole := point.toNat
    if digits.length ≤ whole then digits ++ zeros (whole - digits.length) ++ ['.', '0']
    else digits.take whole ++ '.' :: digits.drop whole

/-- One digit before the point and none after it if there are no more; no plus sign. -/
def scientific (digits : List Char) (point : Int) : List Char :=
  mantissa digits ++ 'e' :: Text.ofInt (point - 1)

def write (l : Layout) (d : Decimal) : List Char :=
  if l.least ≤ d.point ∧ d.point ≤ l.greatest then positional d.digits d.point
  else scientific d.digits d.point

end Layout
end JsonPath.Decimal
