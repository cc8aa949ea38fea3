import JsonPath.Proofs.Coercion
import JsonPath.Proofs.Joining

/-! Concatenation writes the elements of an array as it writes those of an array among its arguments,
and as a join writes them with nothing in between. -/
namespace JsonPath

theorem intercalate_empty (l : List String) : "".intercalate l = String.join l := by
  induction l with
  | nil => rw [String.intercalate_nil, String.join_nil]
  | cons s l ih =>
    rw [String.join_cons, ← ih]
    by_cases hl : l = []
    · subst hl
      rw [String.intercalate_singleton, String.intercalate_nil, String.append_empty]
    · rw [String.intercalate_cons_of_ne_nil hl, String.append_empty]

namespace Concat

/-- The texts of values, one after the other. -/
def write (vs : List Json) : String := .join (vs.map Json.stringify)

theorem write_append (vs ws : List Json) : write (vs ++ ws) = write vs ++ write ws := by
  unfold write
  rw [List.map_append, String.join_append]

/-- Made a string, a value has the text that it had; `null` is left out either way. -/
theorem map_stringify_coerceElement? (v : Json) :
    (ElementType.string.coerceElement? v).map Json.stringify =
      (Option.guard (fun w : Json => !w.isNull) v).map Json.stringify := by
  cases v <;> rfl

/-- The elements of an array are written alike whether they are made strings before or not. -/
theorem write_coerce (es : List Json) :
    write (ElementType.string.coerce (.array es)) = write (base (.array es)) := by
  have htexts : (es.filterMap ElementType.string.coerceElement?).map Json.stringify =
      (es.filter fun w => !w.isNull).map Json.stringify := by
    rw [← List.filterMap_eq_filter, List.map_filterMap, List.map_filterMap]
    exact List.filterMap_congr fun v _ => map_stringify_coerceElement? v
  exact congrArg String.join htexts

theorem invoke_eq (model : Json) (os : List Operand) :
    invoke model os = (Operand.sequence .string os).map fun vs =>
      .string (write (base model) ++ write vs) := by
  unfold invoke
  cases Operand.sequence .string os with
  | error err => rfl
  | ok vs =>
    have hwrite := write_append (base model) vs
    exact congrArg (fun s => Except.ok (Json.string s)) hwrite

theorem invoke_nil (model : Json) : invoke model [] = .ok (.string (write (base model))) := by
  have hsequence : Operand.sequence .string [] = .ok [] := rfl
  have hnothing : write [] = "" := rfl
  rw [invoke_eq, hsequence, Except.map, hnothing, String.append_empty]

theorem invoke_cons {o : Operand} {es : List Json} (h : o.value = .ok (.array es))
    (os : List Operand) : invoke (.array es) os = invoke (.string "") (o :: os) := by
  have hempty : write (base (.string "")) = "" := by decide
  rw [invoke_eq, invoke_eq, Operand.sequence_cons h, hempty]
  cases Operand.sequence .string os with
  | error err => rfl
  | ok vs =>
    simp only [Except.map, write_append, write_coerce, String.empty_append]

end Concat

theorem Join.invoke_empty {o : Operand} (h : o.value = .ok (.string "")) (model : Json) :
    invoke model [o] = .ok (.string (Concat.write (items model))) := by
  have honce : invoke model [o] = once model (some o.value) none := invoke_eq_once model rfl
  have hseparator : separator (.string "") = "" := by decide
  rw [honce, h]
  show Except.ok (unite (separator (.string "")) (parts model)) = _
  rw [hseparator, unite, intercalate_empty]
  rfl

/-- A concatenation of an array, with any arguments, has the outcome of one of the empty string whose
first argument is the array. Without arguments it gives, of all that it has a text for, what a join
with an empty delimiter gives. -/
theorem concat_agrees (path : String) :
    let concat (model : Json) (ps : List Parameter) :=
      Function.concat.invoke path model (ps.map Parameter.resolve)
    let join (model : Json) (ps : List Parameter) :=
      Function.join.invoke path model (ps.map Parameter.resolve)
    (∀ (es : List Json) (p : Parameter) (ps : List Parameter), p.value = .ok (.array es) →
      concat (.array es) ps = concat (.string "") (p :: ps)) ∧
    ∀ (model : Json) (p : Parameter), p.value = .ok (.string "") →
      (∃ es, model = .array es) ∨ (∃ s, model = .string s) ∨ (∃ n, model = .number n) ∨
        model = .null →
      ∃ s, concat model [] = .ok (.string s) ∧ join model [p] = .ok (.string s) := by
  intro concat join
  constructor
  · intro es p ps hp
    exact Concat.invoke_cons hp (ps.map Parameter.resolve)
  · intro model p hp hkind
    -- Booleans and objects are left out: a join writes them, and a concatenation does not.
    have hbase : Concat.base model = Join.items model := by
      rcases hkind with ⟨es, rfl⟩ | ⟨s, rfl⟩ | ⟨n, rfl⟩ | rfl <;> rfl
    have hconcat : concat model [] = .ok (.string (Concat.write (Concat.base model))) :=
      Concat.invoke_nil model
    have hjoin : join model [p] = .ok (.string (Concat.write (Join.items model))) :=
      Join.invoke_empty hp model
    rw [← hbase] at hjoin
    exact ⟨_, hconcat, hjoin⟩

/-- `[1, null, "x", [2, null], false]` as what `concat` is called on and as `$.a` among its arguments,
in front of an argument that has a value and of one that has none. -/
theorem concat_agrees_mixed :
    let n (i : Int) : Json := .ofInt i
    let es : List Json := [n 1, .null, .string "x", .array [n 2, .null], .bool false]
    let e : Environment := ⟨.standard, .object [("a", .array es)]⟩
    let literal (text : String) : Parameter := (Parameter.literal text).bind e .null
    let argument (name : String) : Parameter :=
      (Parameter.subPath (Plan.ofPath ⟨.document, [.property name]⟩)).bind e .null
    let concat (model : Json) (ps : List Parameter) :=
      Function.concat.invoke "$" model (ps.map Parameter.resolve)
    let join (model : Json) (ps : List Parameter) :=
      Function.join.invoke "$" model (ps.map Parameter.resolve)
    (argument "a").value = .ok (.array es) ∧ (literal "\"\"").value = .ok (.string "") ∧
      concat (.array es) [literal "[\"y\", null, 3]"] =
        concat (.string "") [argument "a", literal "[\"y\", null, 3]"] ∧
      concat (.array es) [argument "b"] = concat (.string "") [argument "a", argument "b"] ∧
      concat (.array es) [argument "b"] = .error (.noMember "b" "$") ∧
      join (.array es) [literal "\"\""] = .ok (.string "1x[2,null]false") := by
  intro n es e literal argument concat join
  have ha : (argument "a").value = .ok (.array es) := by cbv
  have hempty : (literal "\"\"").value = .ok (.string "") := by cbv
  obtain ⟨harray, hjoin⟩ := concat_agrees "$"
  have hwritten : concat (.array es) [] = .ok (.string "1x[2,null]false") := by
    simp only [concat, es, n]
    cbv
  have hmissing : concat (.array es) [argument "b"] = .error (.noMember "b" "$") := by
    simp only [concat, es, n, argument, e]
    cbv
  obtain ⟨s, hconcat, hs⟩ := hjoin (.array es) (literal "\"\"") hempty (.inl ⟨es, rfl⟩)
  have htext := hs.trans (hconcat.symm.trans hwritten)
  exact ⟨ha, hempty, harray es _ _ ha, harray es _ _ ha, hmissing, htext⟩

end JsonPath
