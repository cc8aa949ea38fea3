import JsonPath.Evaluation
import JsonPath.Proofs.Nesting

/-! Literal arguments of paths. What a path text can write as a literal, its JSON text gives back
when the argument is read, unless it nests deeper than JSON texts may. -/
namespace JsonPath

open Reader

mutual

/-- The literals among the arguments of all calls in a path, at every depth. -/
def Path.literals : Path → List Json
  | ⟨_, ss⟩ => Segment.allLiterals ss

def Segment.allLiterals : List Segment → List Json
  | [] => []
  | s :: ss => s.literals ++ Segment.allLiterals ss

def Segment.literals : Segment → List Json
  | .call _ as => Argument.allLiterals as
  | _ => []

def Argument.allLiterals : List Argument → List Json
  | [] => []
  | a :: as => a.literals ++ Argument.allLiterals as

def Argument.literals : Argument → List Json
  | .literal v => [v]
  | .path p => p.literals

end

theorem Segment.mem_allLiterals {ss : List Segment} {v : Json} :
    v ∈ Segment.allLiterals ss ↔ ∃ s ∈ ss, v ∈ s.literals := by
  induction ss with
  | nil => simp [allLiterals]
  | cons s ss ih => simp [allLiterals, ih]

theorem Argument.mem_allLiterals {as : List Argument} {v : Json} :
    v ∈ Argument.allLiterals as ↔ ∃ a ∈ as, v ∈ a.literals := by
  induction as with
  | nil => simp [allLiterals]
  | cons a as ih => simp [allLiterals, ih]

/-- The literals of an argument are among those of the path. -/
theorem Path.mem_literals_of_argument {root : Root} {ss : List Segment} {name : String}
    {as : List Argument} (hs : .call name as ∈ ss) {a : Argument} (ha : a ∈ as) {v : Json}
    (hv : v ∈ a.literals) : v ∈ (Path.mk root ss).literals :=
  Segment.mem_allLiterals.mpr ⟨_, hs, Argument.mem_allLiterals.mpr ⟨a, ha, hv⟩⟩

theorem Json.integral_ofInt (n : Int) : (ofInt n).Integral := by
  unfold ofInt Number.ofInt?
  cases Integer.ofInt? n <;> exact fun x h => by cases h

namespace Path

theorem literals_yields (literals bound : Nat) :
    (read literals bound).Yields fun p => ∀ v ∈ p.literals, v.Ordered := by
  induction bound with
  | zero => exact yields_failure
  | succ bound ih =>
    have hargument : (readArgument literals bound).Yields fun a => ∀ v ∈ a.literals, v.Ordered := by
      refine (ih.map fun p hp => hp).orElse ((readLiteral_yields literals).map fun v hv w hw => ?_)
      rwa [List.mem_singleton.mp hw]
    intro s p rest h v hv
    have hsegments := read_yields literals bound hargument s p rest h
    obtain ⟨symbol, ss⟩ := p
    obtain ⟨t, ht, hv⟩ := Segment.mem_allLiterals.mp hv
    cases t with
    | call name as =>
      obtain ⟨a, ha, hv⟩ := Argument.mem_allLiterals.mp hv
      exact (hsegments _ ht).2 a ha v hv
    | _ => cases hv

theorem ordered_of_mem_literals {text : String} {p : Path} (h : parse? text = some p) {v : Json}
    (hv : v ∈ p.literals) : v.Ordered :=
  (literals_yields _ _).padded.all? h v hv

end Path

namespace Parameter

/-- Reading a bound literal undoes its printing up to the depth that JSON texts may have. -/
theorem value_of_literal {text : String} {p : Path} (h : Path.parse? text = some p) {v : Json}
    (hv : v ∈ p.literals) (hi : v.Integral) (e : Environment) (model : Json) :
    ((ofArgument (.literal v)).bind e model).value =
      if v.depth ≤ 127 then .ok v else .error (.malformedLiteral v.text) := by
  have hparse : Json.parse? v.text = if v.depth ≤ 127 then some v else none :=
    Json.parse?_text (Path.ordered_of_mem_literals h hv) hi
  have hvalue : ((ofArgument (.literal v)).bind e model).value =
      ((Binding.json v.text e.configuration).operand Closure.value).value := rfl
  rw [hvalue]
  by_cases hdepth : v.depth ≤ 127
  · rw [if_pos hdepth] at hparse ⊢
    rw [Binding.operand_json_of_some hparse]
    rfl
  · rw [if_neg hdepth] at hparse ⊢
    rw [Binding.operand_json_of_none hparse]
    rfl

/-- A literal that a path text can write and whose numbers are integers is read as itself, by
whichever call it is bound and whatever stands beside it, or is refused for its depth alone. Path
texts write literals of any depth. -/
theorem literal_value :
    (∀ (text : String) (p : Path) (v : Json), Path.parse? text = some p → v ∈ p.literals →
      v.Integral → ∀ (e : Environment) (model : Json) (ps : List Parameter) (i : Nat),
        ps[i]? = some (.ofArgument (.literal v)) →
        ∃ q, (bindAll e model ps)[i]? = some q ∧
          (v.depth ≤ 127 → q.value = .ok v) ∧
          (127 < v.depth → ∃ err, q.value = .error err ∧ err.kind = .invalidJson)) ∧
    ∀ n, ∃ (text : String) (p : Path) (v : Json), Path.parse? text = some p ∧ v ∈ p.literals ∧
      v.Integral ∧ v.depth = n := by
  constructor
  · intro text p v h hv hi e model ps i hp
    have hvalue := value_of_literal h hv hi e model
    refine ⟨(ofArgument (.literal v)).bind e model, ?_, ?_, ?_⟩
    · rw [bindAll, List.getElem?_map, hp]
      rfl
    · intro hdepth
      rw [hvalue, if_pos hdepth]
    · intro hdepth
      exact ⟨.malformedLiteral v.text, by rw [hvalue, if_neg (Nat.not_le.mpr hdepth)], rfl⟩
  · intro n
    exact ⟨_, _, Path.nested n, Path.parse?_nested n, List.mem_cons_self, Path.integral_nested n,
      Path.depth_nested n⟩

/-- Members come back in the order of their keys, two paths deep; 128 brackets are too many. -/
theorem literal_value_members :
    let v : Json := .object [("a", .string "x\x0b"),
      ("b", .array [.ofInt 18446744073709551615, .ofInt (-9223372036854775808)])]
    let e : Environment := ⟨.standard, .null⟩
    ((literal v.text).bind e .null).value = .ok v ∧
      ∃ err, ((literal (Path.nested 128).text).bind e .null).value = .error err ∧
        err.kind = .invalidJson := by
  intro v e
  have hv : v.Integral := by
    refine ⟨?_, ?_, ⟨?_, Json.integral_ofInt _, Json.integral_ofInt _, trivial⟩, trivial⟩ <;>
      exact fun x h => by cases h
  have hp : Path.parse?
      "$.f(@.g(\x7b'b': [18446744073709551615, -9223372036854775808,], \"a\": 'x\\u000b'\x7d))" =
        some ⟨.document, [.call "f" [.path ⟨.current, [.call "g" [.literal v]]⟩]]⟩ := by cbv
  constructor
  · obtain ⟨q, hq, hok, _⟩ := literal_value.1 _ _ v hp List.mem_cons_self hv e .null
      [literal v.text] 0 rfl
    cases hq
    exact hok (by decide)
  · obtain ⟨q, hq, _, herror⟩ := literal_value.1 _ _ (Path.nested 128) (Path.parse?_nested 128)
      List.mem_cons_self (Path.integral_nested 128) e .null [literal (Path.nested 128).text] 0 rfl
    cases hq
    exact herror (by rw [Path.depth_nested]; decide)

end Parameter
end JsonPath
