import JsonPath.Proofs.Picking

/-! The argument of `index`. It has to be an integer that is held with a sign; the integers from
`2 ^ 63` on are none of these, though they lie behind the end of every array. -/
namespace JsonPath

namespace Json

theorem toInt64?_of_lt {n : Integer} (h : n.value < 2 ^ 63) :
    toInt64? (.number (.integer n)) = some (.ofInt n.value) := by
  have hmax : Int64.maxValue.toInt = 2 ^ 63 - 1 := rfl
  have hle : n.value ≤ Int64.maxValue.toInt := by omega
  simp only [toInt64?, Number.toInt?, Option.bind_some, if_pos hle]

theorem toInt64?_of_le {n : Integer} (h : 2 ^ 63 ≤ n.value) :
    toInt64? (.number (.integer n)) = none := by
  have hmax : Int64.maxValue.toInt = 2 ^ 63 - 1 := rfl
  have hlt : ¬ n.value ≤ Int64.maxValue.toInt := by omega
  simp only [toInt64?, Number.toInt?, Option.bind_some, if_neg hlt]

theorem toInt64?_of_not_integer {v : Json} (h : ∀ n, v ≠ .number (.integer n)) :
    v.toInt64? = none := by
  cases v with
  | number n =>
    cases n with
    | integer n => exact absurd rfl (h n)
    | double x => rfl
  | _ => rfl

end Json

/-- Up to `2 ^ 63` nothing of an integer is lost. -/
theorem Integer.toInt_ofInt_of_lt {n : Integer} (h : n.value < 2 ^ 63) :
    (Int64.ofInt n.value).toInt = n.value := by
  have hlower := n.lower
  exact Int64.toInt_ofInt_of_le (by omega) (by omega)

namespace Collection

variable {model v : Json} {o : Operand} {os : List Operand} {err : EvalError}

theorem index_of_error (h : o.value = .error err) : index model (o :: os) = .error err := by
  simp only [index, h]
  rfl

theorem index_of_none (h : o.value = .ok v) (hv : v.toInt64? = none) :
    index model (o :: os) = .error (.invalidIndex v) := by
  simp only [index, h, bind, Except.bind, hv]

theorem index_of_lt {n : Integer} (h : o.value = .ok (.number (.integer n)))
    (hn : n.value < 2 ^ 63) : index model (o :: os) = .ok (pick n.value model) := by
  simp only [index, h, bind, Except.bind, Json.toInt64?_of_lt hn, Integer.toInt_ofInt_of_lt hn]
  rfl

end Collection

namespace Function

/-- On an array of `n` elements `index` fails without an argument, with the error of its argument,
and for a value that is no integer. An integer from `-n` up to `n` picks the element at its residue
modulo `n`, and one that is past either end gives `null` as long as it is less than `2 ^ 63`: from
there on it is refused as if it were no integer. -/
theorem invoke_index (path : String) (es : List Json) :
    let outcome (ps : List Parameter) := index.invoke path (.array es) (ps.map Parameter.resolve)
    outcome [] = .error .missingIndex ∧
    ∀ (p : Parameter) (rest : List Parameter),
      (∀ err, p.value = .error err → outcome (p :: rest) = .error err) ∧
      (∀ v, p.value = .ok v → (∀ n, v ≠ .number (.integer n)) →
        outcome (p :: rest) = .error (.invalidIndex v)) ∧
      ∀ n : Integer, p.value = .ok (.number (.integer n)) →
        (-(es.length : Int) ≤ n.value → n.value < es.length → n.value < 2 ^ 63 →
          ∃ v, es[(n.value % es.length).toNat]? = some v ∧ outcome (p :: rest) = .ok v) ∧
        (n.value < -(es.length : Int) ∨ es.length ≤ n.value → n.value < 2 ^ 63 →
          outcome (p :: rest) = .ok .null) ∧
        (2 ^ 63 ≤ n.value →
          outcome (p :: rest) = .error (.invalidIndex (.number (.integer n)))) := by
  intro outcome
  constructor
  · rfl
  · intro p rest
    have hcons : outcome (p :: rest) =
        Collection.index (.array es) (p.resolve :: rest.map Parameter.resolve) := rfl
    rw [hcons]
    refine ⟨?_, ?_, ?_⟩
    · intro err h
      exact Collection.index_of_error h
    · intro v h hv
      exact Collection.index_of_none h (Json.toInt64?_of_not_integer hv)
    · intro n h
      refine ⟨?_, ?_, ?_⟩
      · intro hl hu hn
        obtain ⟨v, hv, hp⟩ := Collection.pick?_of_inside hl hu
        refine ⟨v, hv, ?_⟩
        rw [Collection.index_of_lt h hn, Collection.pick_of_pick? hp]
      · intro houtside hn
        have hp := Collection.pick?_of_outside houtside
        rw [Collection.index_of_lt h hn, Collection.pick_of_none hp]
      · intro hn
        exact Collection.index_of_none h (Json.toInt64?_of_le hn)

/-- The ends of the range of integers, and a position from the end. -/
theorem invoke_index_ends :
    let written (v : Json) := (Parameter.literal v.text).setBinding (.json v.text .standard)
    let outcome (ps : List Parameter) :=
      index.invoke "$" (.array [.bool true, .string "xy"]) (ps.map Parameter.resolve)
    outcome [written (.ofInt (-2))] = .ok (.bool true) ∧
      outcome [written (.ofInt (-9223372036854775808))] = .ok .null ∧
      outcome [written (.ofInt 18446744073709551615)] =
        .error (.invalidIndex (.ofInt 18446744073709551615)) ∧
      outcome [written (.bool true)] = .error (.invalidIndex (.bool true)) ∧
      outcome [.unbound] = .error (.unboundValue "Unbound") := by
  intro written outcome
  have hvalue (v : Json) (h : Json.parse? v.text = some v) : (written v).value = .ok v := by
    have hoperand : (written v).resolve = .whole (.ok v) :=
      Binding.operand_json_of_some (r := Closure.value) (c := .standard) h
    rw [Parameter.value, hoperand]
    rfl
  have hindex := (invoke_index "$" [.bool true, .string "xy"]).2
  have hinteger (n : Integer) := (hindex (written (.ofInt n.value)) []).2.2 n
  have hinside := hinteger ⟨-2, by decide, by decide⟩ (hvalue _ (Json.parse?_text_ofInt _))
    |>.1 (by decide) (by decide) (by decide)
  have hleast := hinteger ⟨-9223372036854775808, by decide, by decide⟩
    (hvalue _ (Json.parse?_text_ofInt _)) |>.2.1 (.inl (by decide)) (by decide)
  have hgreatest := hinteger ⟨18446744073709551615, by decide, by decide⟩
    (hvalue _ (Json.parse?_text_ofInt _)) |>.2.2 (by decide)
  have hother := (hindex (written (.bool true)) []).2.1 (.bool true) (hvalue _ (by cbv))
    (fun n h => by cases h)
  have hunbound := (hindex .unbound []).1 (.unboundValue "Unbound") rfl
  obtain ⟨v, hv, hpick⟩ := hinside
  cases hv
  exact ⟨hpick, hleast, hgreatest, hother, hunbound⟩

/-- An integer from `2 ^ 63` on is past the end of every array and does not give `null`. -/
theorem index_refuses_integer :
    ¬ ∀ (path : String) (es : List Json) (p : Parameter) (rest : List Parameter) (n : Integer),
      p.value = .ok (.number (.integer n)) →
        ∃ v, index.invoke path (.array es) ((p :: rest).map Parameter.resolve) = .ok v := by
  intro h
  let text := "9223372036854775808"
  let p := (Parameter.literal text).setBinding (.json text .standard)
  let n : Integer := ⟨9223372036854775808, by decide, by decide⟩
  have hp : p.value = .ok (.number (.integer n)) := by cbv
  have hrefused : Collection.index (.array [.bool true]) [p.resolve] =
      .error (.invalidIndex (.number (.integer n))) :=
    Collection.index_of_none hp (Json.toInt64?_of_le (by decide))
  obtain ⟨v, hv⟩ := h "$" [.bool true] p [] n hp
  cases hrefused.symm.trans hv

end Function
end JsonPath
