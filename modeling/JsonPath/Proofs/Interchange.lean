import JsonPath.Proofs.Literals
import JsonPath.Proofs.Options
import JsonPath.Proofs.Ordered

/-! Arguments and their values. A path from the document can be written as a literal of its value,
wherever it stands but as the second argument of a join. -/
namespace JsonPath

theorem Argument.operandAt_of_parse? {r : Resolver} {v : Json} (hv : Json.parse? v.text = some v)
    (f : Function) (e : Environment) (model : Json) (i : Nat) :
    (Argument.literal v).operandAt r f e model i = .whole (.ok v) := by
  rw [operandAt_literal, Binding.operand_json_of_some hv]

/-- What a function sees of a path from the document. -/
theorem Argument.operandAt_of_value {q : Path} {v root : Json} {c : Configuration}
    (hq : q.root = .document) (hvalue : (Plan.ofPath q).value root root c = .ok v) (f : Function)
    (model : Json) (i : Nat) :
    (Argument.path q).operandAt Closure.value f ⟨c, root⟩ model i =
      if f = .join ∧ i = 1 then .element (.ok v) 0 else .whole (.ok v) := by
  rw [operandAt_path, hq]
  simp only [Root.scope, hvalue]

namespace Token

variable {r : Resolver} {e : Environment} {t t' : Token}

/-- Tokens that step alike and record alike can stand for each other in a chain. -/
theorem walk_replace (hstep : ∀ d, t.step r e d = t'.step r e d)
    (hhits : ∀ d d' last, t.hits d d' last = t'.hits d d' last) (ts us : List Token)
    (d : Cursor) : walk r e d (ts ++ t :: us) = walk r e d (ts ++ t' :: us) := by
  induction ts generalizing d with
  | nil => simp only [List.nil_append, walk, hstep, hhits]
  | cons u ts ih =>
    have hempty : (ts ++ t :: us).isEmpty = (ts ++ t' :: us).isEmpty := by cases ts <;> rfl
    simp only [List.cons_append, walk, ih, hempty]

/-- A call steps as it did if at one position it sees as much as before. -/
theorem step_set {c : Configuration} {root : Json} {name : String} {as : List Argument} {j : Nat}
    {a a' : Argument} (hj : as[j]? = some a)
    (h : ∀ f, c.registry.lookup name = .ok f → ∀ model,
      a.operandAt r f ⟨c, root⟩ model j = a'.operandAt r f ⟨c, root⟩ model j) (d : Cursor) :
    (ofSegment (.call name as)).step r ⟨c, root⟩ d =
      (ofSegment (.call name (as.set j a'))).step r ⟨c, root⟩ d := by
  simp only [ofSegment, ofCall, step, invoke_ofArguments]
  cases hf : c.registry.lookup name with
  | error err => rfl
  | ok f =>
    have hoperands : (as.mapIdx fun i b => b.operandAt r f ⟨c, root⟩ d.value i) =
        (as.set j a').mapIdx fun i b => b.operandAt r f ⟨c, root⟩ d.value i := by
      apply List.ext_getElem?
      intro i
      rw [List.getElem?_mapIdx, List.getElem?_mapIdx]
      by_cases hi : i = j
      · subst hi
        obtain ⟨hlt, _⟩ := List.getElem?_eq_some_iff.mp hj
        rw [hj, List.getElem?_set_self hlt, Option.map_some, Option.map_some, h f hf]
      · rw [List.getElem?_set_ne (Ne.symm hi)]
    simp only [Except.bind, hoperands]

end Token

namespace Plan

variable {p p' : Plan} {d v : Json} {c : Configuration}

theorem evaluate_congr_of_walk (h : Token.walk Closure.value ⟨c, d⟩ (start d) p.chain =
    Token.walk Closure.value ⟨c, d⟩ (start d) p'.chain) : p.evaluate d d c = p'.evaluate d d c := by
  unfold start at h
  simp only [evaluate, evaluateWith, Context.follow, Context.start, isDefinite_eq_true, h]

theorem evaluate_set_argument (root : Root) (before after : List Segment) {name : String}
    {as : List Argument} {j : Nat} {a a' : Argument} (hj : as[j]? = some a)
    (h : ∀ f, c.registry.lookup name = .ok f → ∀ model,
      a.operandAt Closure.value f ⟨c, d⟩ model j = a'.operandAt Closure.value f ⟨c, d⟩ model j) :
    (ofPath ⟨root, before ++ .call name as :: after⟩).evaluate d d c =
      (ofPath ⟨root, before ++ .call name (as.set j a') :: after⟩).evaluate d d c := by
  refine evaluate_congr_of_walk ?_
  simp only [chain_ofPath, Token.ofSegments_eq, List.map_append, List.map_cons,
    ← List.cons_append]
  exact Token.walk_replace (Token.step_set hj h) (fun _ _ _ => rfl) _ _ _

/-- A path from the document whose value can be written as a literal: its numbers are integers, and
it nests no deeper than JSON texts may. -/
structure HasLiteral (c : Configuration) (d : Json) (q : Path) (v : Json) : Prop where
  root : q.root = .document
  read : (ofPath q).read ⟨c.registry, .empty⟩ d = .ok v
  integral : v.Integral
  depth : v.depth ≤ 127

variable {q : Path}

/-- A literal is read as its text. -/
theorem HasLiteral.parse?_text (h : HasLiteral c d q v) (hd : d.Ordered) :
    Json.parse? v.text = some v := by
  have hordered : v.Ordered := value_ordered hd q hd v ((read_eq_value ..).symm.trans h.read)
  rw [Json.parse?_text hordered h.integral]
  exact if_pos h.depth

/-- The second argument of a join is read by its elements if it is a path, and whole for each
element if it is a literal: `$.a.join(',', $.b)` in `{"a": ["x", "y"], "b": ["1", "2"]}`. -/
theorem join_tells_apart :
    let q : Path := ⟨.document, [.property "b"]⟩
    let v : Json := .array [.string "1", .string "2"]
    let d : Json := .object [("a", .array [.string "x", .string "y"]), ("b", v)]
    let as : List Argument := [.literal (.string ","), .path q]
    d.Ordered ∧ HasLiteral .standard d q v ∧
      (ofPath ⟨.document, [.property "a", .call "join" as]⟩).read .standard d =
        .ok (.string "1,2") ∧
      (ofPath ⟨.document, [.property "a", .call "join" (as.set 1 (.literal v))]⟩).read .standard d =
        .ok (.string "1,1") := by
  intro q v d as
  have hd : Json.parse? "\x7b\"a\": [\"x\", \"y\"], \"b\": [\"1\", \"2\"]\x7d" = some d := by cbv
  have hv : v.Integral := by
    refine ⟨?_, ?_, ?_, trivial⟩ <;> exact fun x h => by cases h
  exact ⟨Json.ordered_of_parse? hd, ⟨rfl, by cbv, hv, by decide⟩, by cbv, by cbv⟩

/-- The value of a path from the document can be given to a call in its place, as a literal: the
evaluation finds the same hits or fails with the same error, whatever stands before and behind the
call and whatever its other arguments are. Only as the second argument of a join the two are told
apart: a path is seen by its elements there. The order that is asked of the document is what
`Json.ordered_of_parse?` shows of every document that is read. -/
theorem argument_as_literal :
    (∀ (c : Configuration) (d : Json) (q : Path) (v : Json), d.Ordered → HasLiteral c d q v →
      (∀ (root : Root) (before after : List Segment) (name : String) (as : List Argument) (j : Nat),
        as[j]? = some (.path q) → ¬ (c.registry.lookup name = .ok .join ∧ j = 1) →
        (ofPath ⟨root, before ++ .call name as :: after⟩).evaluate d d c =
          (ofPath ⟨root, before ++ .call name (as.set j (.literal v)) :: after⟩).evaluate d d c) ∧
      ∀ model : Json,
        (Argument.path q).operandAt Closure.value .join ⟨c, d⟩ model 1 = .element (.ok v) 0 ∧
        (Argument.literal v).operandAt Closure.value .join ⟨c, d⟩ model 1 = .whole (.ok v)) ∧
    ∃ (d : Json) (q : Path) (v w w' : Json) (as : List Argument),
      d.Ordered ∧ HasLiteral .standard d q v ∧ as[1]? = some (.path q) ∧ w ≠ w' ∧
      (ofPath ⟨.document, [.property "a", .call "join" as]⟩).read .standard d = .ok w ∧
      (ofPath ⟨.document, [.property "a", .call "join" (as.set 1 (.literal v))]⟩).read .standard d =
        .ok w' := by
  constructor
  · intro c d q v hd h
    have hpath := Argument.operandAt_of_value h.root ((read_eq_value ..).symm.trans h.read)
    have hliteral := Argument.operandAt_of_parse? (r := Closure.value) (h.parse?_text hd)
    constructor
    · intro root before after name as j hj hjoin
      refine evaluate_set_argument root before after hj fun f hf model => ?_
      have hnot : ¬ (f = .join ∧ j = 1) := by
        rintro ⟨rfl, hj⟩
        exact hjoin ⟨hf, hj⟩
      rw [hpath, hliteral, if_neg hnot]
    · intro model
      exact ⟨(hpath .join model 1).trans (if_pos ⟨rfl, rfl⟩), hliteral .join ⟨c, d⟩ model 1⟩
  · obtain ⟨hd, hq, hw, hw'⟩ := join_tells_apart
    refine ⟨_, _, _, _, _, _, hd, hq, rfl, ?_, hw, hw'⟩
    intro h
    injection h with h
    revert h
    decide

/-- `$.a.sum(@, $.b).concat('!')` in `{"a": [1, 2], "b": [3]}`, where `$.b` is `[3]`. -/
theorem argument_as_literal_sum :
    let n (i : Int) : Json := .ofInt i
    let q : Path := ⟨.document, [.property "b"]⟩
    let d : Json := .object [("a", .array [n 1, n 2]), ("b", .array [n 3])]
    let path (a : Argument) : Path := ⟨.document, [.property "a",
      .call "sum" [.path ⟨.current, []⟩, a], .call "concat" [.literal (.string "!")]]⟩
    (ofPath (path (.path q))).evaluate d d .standard =
        (ofPath (path (.literal (.array [n 3])))).evaluate d d .standard ∧
      (ofPath (path (.literal (.array [n 3])))).read .standard d = .ok (.string "9!") := by
  intro n q d path
  have hd : Json.parse? "\x7b\"a\": [1, 2], \"b\": [3]\x7d" = some d := by cbv
  have hv : (Json.array [n 3]).Integral := by
    refine ⟨?_, Json.integral_ofInt 3, trivial⟩
    exact fun x h => by cases h
  have hq : HasLiteral .standard d q (.array [n 3]) := ⟨rfl, by cbv, hv, by decide⟩
  have hsum : Configuration.standard.registry.lookup "sum" = .ok (.aggregate .sum) := by cbv
  have hsame := (argument_as_literal.1 .standard d q _ (Json.ordered_of_parse? hd) hq).1 .document
    [.property "a"] [.call "concat" [.literal (.string "!")]] "sum"
    [.path ⟨.current, []⟩, .path q] 1 rfl (by simp [hsum])
  exact ⟨hsame, by cbv⟩

end Plan
end JsonPath
