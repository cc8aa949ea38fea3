/-! The functions that a path can call. They are those of the library: functions that a program
registers of its own could look at the options and at the path, and are left out. -/
namespace JsonPath

inductive Aggregation where
  | sum
  | min
  | max
  | average
  | deviation
  deriving DecidableEq, Repr

inductive Function where
  | aggregate (a : Aggregation)
  | concat
  | length
  | join
  | first
  | last
  | index
  | append
  | keys
  deriving DecidableEq, Repr

end JsonPath
