import JsonPath.Binding

/-! Binding looks at each parameter by itself, and at its position. A literal is read from its
text. -/
namespace JsonPath

namespace Binding

variable {r : Resolver} {text : String} {v : Json} {c : Configuration}

theorem operand_json_of_some (h : Json.parse? text = some v) :
    (json text c).operand r = .whole (.ok v) := by
  simp only [operand, h]

theorem operand_json_of_none (h : Json.parse? text = none) :
    (json text c).operand r = .whole (.error (.malformedLiteral text)) := by
  simp only [operand, h]

end Binding

namespace Function

/-- What binding makes of the parameter at a position. -/
def bindAt (f : Function) (e : Environment) (model : Json) (i : Nat) (p : Parameter) : Parameter :=
  if f = join ∧ i = 1 then (p.bind e model).toElement else p.bind e model

variable {f : Function} {e : Environment} {model : Json} {ps : List Parameter}

theorem bind_of_ne_join (hf : f ≠ join) : f.bind e model ps = Parameter.bindAll e model ps := by
  cases f with
  | join => contradiction
  | _ => rfl

theorem getElem?_bind (i : Nat) :
    (f.bind e model ps)[i]? = ps[i]?.map (f.bindAt e model i) := by
  have hall : (Parameter.bindAll e model ps)[i]? = ps[i]?.map (Parameter.bind e model) :=
    List.getElem?_map
  by_cases hf : f = join
  · subst hf
    by_cases hi : i = 1
    · subst hi
      have hat : join.bindAt e model 1 = Parameter.toElement ∘ Parameter.bind e model :=
        funext fun p => if_pos ⟨rfl, rfl⟩
      rw [bind, List.getElem?_modify_eq, hall, hat, ← Option.map_map]
      rfl
    · have hat : join.bindAt e model i = Parameter.bind e model :=
        funext fun p => if_neg fun h => hi h.2
      rw [bind, List.getElem?_modify_ne _ _ (Ne.symm hi), hall, hat]
  · have hat : f.bindAt e model i = Parameter.bind e model :=
      funext fun p => if_neg fun h => hf h.1
    rw [bind_of_ne_join hf, hall, hat]

theorem bind_eq_mapIdx (f : Function) (e : Environment) (model : Json) (ps : List Parameter) :
    f.bind e model ps = ps.mapIdx (f.bindAt e model) := by
  apply List.ext_getElem?
  intro i
  rw [getElem?_bind, List.getElem?_mapIdx]

theorem exists_of_mem_bind {q : Parameter} (h : q ∈ f.bind e model ps) :
    ∃ i, ∃ p ∈ ps, q = f.bindAt e model i p := by
  rw [bind_eq_mapIdx] at h
  obtain ⟨i, hi, rfl⟩ := List.mem_mapIdx.mp h
  exact ⟨i, ps[i], List.getElem_mem hi, rfl⟩

end Function
end JsonPath
