/-! Integers in decimal digits. -/
namespace JsonPath.Text

/-- The digits, after a minus sign if the integer is negative. -/
def ofInt (n : Int) : List Char :=
  let digits := Nat.toDigits 10 n.natAbs
  if n < 0 then '-' :: digits else digits

end JsonPath.Text
