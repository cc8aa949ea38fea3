import JsonPath.Proofs.Arguments

/-! The numbers that an aggregation is taken of: it makes no difference whether a value is what the
call is made on, an argument of it, or was appended before. -/
namespace JsonPath

namespace Aggregation

/-- The numbers that a value holds: those among the elements of an array, or the value itself. -/
def held : Json → List Number
  | .array es => es.filterMap number?
  | v => (number? v).toList

/-- What else an array has, and whether that is coerced away before, is no matter. -/
theorem filterMap_coerce {t : ElementType} (ht : t = .number ∨ t = .any) (v : Json) :
    (t.coerce v).filterMap number? = held v := by
  have helement (x : Json) : (t.coerceElement? x).bind number? = number? x := by
    rcases ht with rfl | rfl <;> cases x <;> rfl
  cases v with
  | array es =>
    unfold ElementType.coerce held
    rw [List.filterMap_filterMap]
    exact List.filterMap_congr fun x _ => helement x
  | _ => rcases ht with rfl | rfl <;> rfl

theorem filterMap_sequence {t : ElementType} (ht : t = .number ∨ t = .any) (os : List Operand) :
    (Operand.sequence t os).map (·.filterMap number?) =
      (os.mapM Operand.value).map (·.flatMap held) := by
  have hflat (vs : List Json) : (vs.flatMap t.coerce).filterMap number? = vs.flatMap held := by
    rw [List.filterMap_flatMap]
    exact List.flatMap_congr fun v _ => filterMap_coerce ht v
  unfold Operand.sequence
  cases os.mapM Operand.value with
  | error err => rfl
  | ok vs => exact congrArg Except.ok (hflat vs)

/-- The numbers of the model come first, then those that the arguments hold. The arguments fail as
they do by themselves. -/
theorem numbers_eq (model : Json) (os : List Operand) :
    numbers model os = (os.mapM Operand.value).map fun vs =>
      model.elements.filterMap number? ++ vs.flatMap held := by
  have hnumbers : numbers model os =
      ((Operand.sequence .number os).map (·.filterMap number?)).map
        (model.elements.filterMap number? ++ ·) := by
    unfold numbers
    cases Operand.sequence .number os with
    | error err => rfl
    | ok vs => exact congrArg Except.ok List.filterMap_append
  rw [hnumbers, filterMap_sequence (.inl rfl)]
  cases os.mapM Operand.value <;> rfl

/-- What was appended to an array is counted as it would be as an argument. -/
theorem numbers_append (path : String) (es : List Json) (os : List Operand) :
    ((Collection.append path (.array es) os).bind fun v => numbers v []) =
      numbers (.array es) os := by
  have hnumbers (vs : List Json) : numbers (.array (es ++ vs)) [] =
      .ok (es.filterMap number? ++ vs.filterMap number?) := by
    rw [numbers_eq, Json.elements, List.filterMap_append]
    exact congrArg Except.ok (List.append_nil _)
  have happend : ((Collection.append path (.array es) os).bind fun v => numbers v []) =
      ((Operand.sequence .any os).map (·.filterMap number?)).map
        (es.filterMap number? ++ ·) := by
    unfold Collection.append
    cases Operand.sequence .any os with
    | error err => rfl
    | ok vs => exact hnumbers vs
  -- Coercion to any type and to numbers leave the same numbers, in the same order.
  rw [happend, filterMap_sequence (.inr rfl), numbers_eq]
  cases os.mapM Operand.value <;> rfl

/-- An array is counted as a first argument as it would be as the model. -/
theorem numbers_cons {o : Operand} {es : List Json} (h : o.value = .ok (.array es))
    (os : List Operand) : numbers .null (o :: os) = numbers (.array es) os := by
  rw [numbers_eq, numbers_eq, List.mapM_cons, h]
  cases os.mapM Operand.value <;> rfl

/-- An aggregation of what has these numbers. -/
def conclude (a : Aggregation) (ns : List Number) : Except EvalError Json :=
  (a.value? ns).elim (.error .emptyAggregation) .ok

theorem invoke_eq (a : Aggregation) (model : Json) (os : List Operand) :
    a.invoke model os = (numbers model os).bind a.conclude := by
  unfold invoke conclude
  cases numbers model os with
  | error err => rfl
  | ok ns =>
    simp only [bind, Except.bind]
    cases a.value? ns <;> rfl

theorem invoke_append (a : Aggregation) (path : String) (es : List Json) (os : List Operand) :
    ((Collection.append path (.array es) os).bind fun v => a.invoke v []) =
      a.invoke (.array es) os := by
  have hnumbers := numbers_append path es os
  rw [invoke_eq, ← hnumbers]
  cases Collection.append path (.array es) os with
  | error err => rfl
  | ok v => exact invoke_eq a v []

end Aggregation

/-- An aggregation of an array with arguments has the outcome of the same aggregation, without
arguments, of the array that they were appended to, and of the one whose first argument is the
array. The arguments may give any values, or fail. -/
theorem aggregate_eq_append (a : Aggregation) (path : String) (es : List Json)
    (ps : List Parameter) :
    let aggregate (model : Json) (ps : List Parameter) :=
      (Function.aggregate a).invoke path model (ps.map Parameter.resolve)
    let append (model : Json) := Function.append.invoke path model (ps.map Parameter.resolve)
    ((append (.array es)).bind fun v => aggregate v []) = aggregate (.array es) ps ∧
      ∀ p : Parameter, p.value = .ok (.array es) →
        aggregate .null (p :: ps) = aggregate (.array es) ps := by
  intro aggregate append
  constructor
  · exact a.invoke_append path es (ps.map Parameter.resolve)
  · intro p hp
    have hnumbers := Aggregation.numbers_cons hp (ps.map Parameter.resolve)
    simp only [aggregate, Function.invoke, List.map_cons]
    rw [Aggregation.invoke_eq, Aggregation.invoke_eq, hnumbers]

/-- `sum` of `[1, "x", null, [2]]` with `[null, 4]` and with `$.b` as arguments, where the document
may be without a `b`. -/
theorem aggregate_eq_append_sum :
    let n (i : Int) : Json := .ofInt i
    let es : List Json := [n 1, .string "x", .null, .array [n 2]]
    let e (d : List (String × Json)) : Environment := ⟨.standard, .object (("a", .array es) :: d)⟩
    let argument (d : List (String × Json)) (name : String) : Parameter :=
      (Parameter.subPath (Plan.ofPath ⟨.document, [.property name]⟩)).bind (e d) .null
    let ps (d : List (String × Json)) : List Parameter :=
      [(Parameter.literal "[null, 4]").bind (e d) .null, argument d "b"]
    let sum (model : Json) (ps : List Parameter) :=
      (Function.aggregate .sum).invoke "$" model (ps.map Parameter.resolve)
    (argument [] "a").value = .ok (.array es) ∧
      (argument [("b", n 7)] "a").value = .ok (.array es) ∧
      sum .null (argument [("b", n 7)] "a" :: ps [("b", n 7)]) = .ok (n 12) ∧
      sum .null (argument [] "a" :: ps []) = .error (.noMember "b" "$") := by
  intro n es e argument ps sum
  have hmissing : (argument [] "a").value = .ok (.array es) := by cbv
  have hpresent : (argument [("b", n 7)] "a").value = .ok (.array es) := by cbv
  have hok := (aggregate_eq_append .sum "$" es (ps [("b", n 7)])).2 _ hpresent
  have herror := (aggregate_eq_append .sum "$" es (ps [])).2 _ hmissing
  refine ⟨hmissing, hpresent, hok.trans ?_, herror.trans ?_⟩
  · simp only [n, es, ps, argument, e]
    cbv
  · simp only [n, es, ps, argument, e]
    cbv

end JsonPath
