import JsonPath.Function.Basic
import JsonPath.Operand

/-! Aggregation of numbers. Integers are added and compared exactly; with a double among them, or
with a total that 64 bits do not hold, all are taken as doubles. -/
namespace JsonPath

/-- The exact side of an aggregation: the total of the integers met so far, the least and the
greatest of them. -/
structure Tally where
  total : Int
  least : Option Int
  greatest : Option Int

namespace Tally

def empty : Tally := ⟨0, none, none⟩

/-- Totals are kept in 128 bits. -/
def fits (total : Int) : Bool :=
  -170141183460469231731687303715884105728 ≤ total &&
    total < 170141183460469231731687303715884105728

/-- Takes in one more number. A double has no exact side, nor has a total that does not fit. -/
def next? (t : Tally) : Number → Option Tally
  | .integer n =>
    if fits (t.total + n.value) then
      some ⟨t.total + n.value, some (t.least.elim n.value (min · n.value)),
        some (t.greatest.elim n.value (max · n.value))⟩
    else none
  | .double _ => none

def ofNumbers? (ns : List Number) : Option Tally := ns.foldlM next? empty

/-- The integer result. Means are never taken exactly. -/
def result? (t : Tally) : Aggregation → Option Int
  | .sum => some t.total
  | .min => t.least
  | .max => t.greatest
  | .average | .deviation => none

end Tally

namespace Aggregation

def number? : Json → Option Number
  | .number n => some n
  | _ => none

def total (xs : List Float) : Float := xs.foldl (· + ·) 0

def size (xs : List Float) : Float := xs.length.toUInt64.toFloat

def mean (xs : List Float) : Float := total xs / size xs

/-- The mean of the squares less the square of the mean, not below zero. -/
def variance (xs : List Float) : Float :=
  let v := total (xs.map fun x => x * x) / size xs - mean xs * mean xs
  if 0 < v then v else 0

private def least (x y : Float) : Float := if y < x then y else x

private def greatest (x y : Float) : Float := if x < y then y else x

/-- The floating result for a nonempty list. -/
def approximate (a : Aggregation) (x : Float) (xs : List Float) : Float :=
  match a with
  | sum => total (x :: xs)
  | min => xs.foldl least x
  | max => xs.foldl greatest x
  | average => mean (x :: xs)
  | deviation => (variance (x :: xs)).sqrt

/-- An integral result below `2 ^ 63` is given as an integer, one that is not finite as `null`. -/
def result (x : Float) : Json :=
  match Double.ofFloat? x with
  | none => .null
  | some d =>
    match d.toInt? with
    | some n => if n.natAbs ≤ Int64.maxValue.toInt then .ofInt n else .number (.double d)
    | none => .number (.double d)

/-- Nothing can be said of no numbers. -/
def value? (a : Aggregation) : List Number → Option Json
  | [] => none
  | n :: ns =>
    let exact := (Tally.ofNumbers? (n :: ns)).bind fun t => t.result? a
    match exact.bind Number.ofInt? with
    | some m => some (.number m)
    | none => some (result (a.approximate n.toFloat (ns.map Number.toFloat)))

/-- The numbers among the elements of an array, then those that the arguments give. -/
def numbers (model : Json) (os : List Operand) : Except EvalError (List Number) :=
  return (model.elements ++ (← Operand.sequence .number os)).filterMap number?

def invoke (a : Aggregation) (model : Json) (os : List Operand) : Except EvalError Json := do
  match a.value? (← numbers model os) with
  | some v => .ok v
  | none => .error .emptyAggregation

end Aggregation
end JsonPath
