/-! Numbers of a JSON text: 64-bit integers, signed or unsigned, and finite doubles. The two kinds
never coincide, so `1` and `1.0` differ. -/
namespace JsonPath

/-- An integer from `-2 ^ 63` up to, but not including, `2 ^ 64`. -/
structure Integer where
  value : Int
  lower : -9223372036854775808 ≤ value
  upper : value < 18446744073709551616
  deriving DecidableEq

structure Double where
  value : Float
  finite : value.isFinite = true
  deriving DecidableEq

inductive Number where
  | integer (n : Integer)
  | double (x : Double)
  deriving DecidableEq

def Integer.ofInt? (n : Int) : Option Integer :=
  if h : -9223372036854775808 ≤ n ∧ n < 18446744073709551616 then some ⟨n, h.1, h.2⟩ else none

/-- Rounded to nearest, ties to even. -/
def Integer.toFloat (n : Integer) : Float :=
  let magnitude := n.value.natAbs.toUInt64.toFloat
  if n.value < 0 then -magnitude else magnitude

def Double.ofFloat? (x : Float) : Option Double :=
  if h : x.isFinite = true then some ⟨x, h⟩ else none

open Float.Model in
/-- The sign, the mantissa and the power of two of a double. -/
def Double.unpack (x : Double) : UnpackedFloat :=
  .unpack Format.binary64 x.value.toBits.toBitVec

/-- The integer that a double equals. -/
def Double.toInt? (x : Double) : Option Int :=
  match x.unpack with
  | .zero _ => some 0
  | .finite s m e _ =>
    let signed (n : Nat) : Int := if s matches .negative then -n else n
    if 0 ≤ e then some (signed (m <<< e.toNat))
    else
      let whole := m >>> e.natAbs
      if whole <<< e.natAbs = m then some (signed whole) else none
  | _ => none

namespace Number

def ofInt? (n : Int) : Option Number := (Integer.ofInt? n).map .integer

def toFloat : Number → Float
  | integer n => n.toFloat
  | double x => x.value

/-- The exact value of an integer; a double has none, even an integral one. -/
def toInt? : Number → Option Int
  | integer n => some n.value
  | double _ => none

end Number
end JsonPath
