import JsonPath.Answer
import JsonPath.Proofs.Literals
import JsonPath.Proofs.Scope

/-! Why the evaluation of a path that a text writes can fail. All parameters of its calls are bound
when the functions read them, and a literal is refused only where JSON texts have no place for it. -/
namespace JsonPath

/-- Whether a path can be the reason for an error, if its literals can be `refused` or not. -/
def EvalError.Foreseen (refused : Prop) (err : EvalError) : Prop :=
  match err.kind with
  | .unknownFunction | .invalidArgument | .pathNotFound => True
  | .invalidJson => refused
  | .unboundParameter | .invalidPath => False

/-- An outcome whose error, if it is one, has a property. -/
def FailsWith {α : Type} (P : EvalError → Prop) (x : Except EvalError α) : Prop :=
  ∀ err, x = .error err → P err

namespace FailsWith

variable {α β : Type} {P : EvalError → Prop}

theorem ok (a : α) : FailsWith P (.ok a : Except EvalError α) := by
  intro err h
  cases h

theorem error {err : EvalError} (h : P err) : FailsWith P (.error err : Except EvalError α) := by
  intro err' h'
  cases h'
  exact h

theorem bind {x : Except EvalError α} {f : α → Except EvalError β} (hx : FailsWith P x)
    (hf : ∀ a, FailsWith P (f a)) : FailsWith P (x >>= f) := by
  intro err h
  cases x with
  | error err' =>
    cases h
    exact hx _ rfl
  | ok a => exact hf a err h

theorem map {x : Except EvalError α} (f : α → β) (hx : FailsWith P x) : FailsWith P (x.map f) := by
  intro err h
  cases x with
  | error err' =>
    cases h
    exact hx _ rfl
  | ok a => cases h

theorem mapM {f : α → Except EvalError β} {as : List α} (hf : ∀ a ∈ as, FailsWith P (f a)) :
    FailsWith P (as.mapM f) := by
  induction as with
  | nil => exact ok []
  | cons a as ih =>
    obtain ⟨ha, has⟩ := List.forall_mem_cons.mp hf
    rw [List.mapM_cons]
    exact ha.bind fun b => (ih has).bind fun bs => ok (b :: bs)

end FailsWith

/-- An argument that cannot be read but with a foreseen error. -/
def Operand.Foreseen (refused : Prop) : Operand → Prop
  | whole v | element v _ => FailsWith (EvalError.Foreseen refused) v

section
variable {refused : Prop}

theorem Operand.Foreseen.value {o : Operand} (h : o.Foreseen refused) :
    FailsWith (EvalError.Foreseen refused) o.value := by
  cases o with
  | whole v => exact h
  | element v i => exact FailsWith.map _ h

theorem Operand.Foreseen.moveTo {o : Operand} (h : o.Foreseen refused) (i : Nat) :
    (o.moveTo i).Foreseen refused := by
  cases o <;> exact h

theorem Operand.sequence_foreseen (t : ElementType) {os : List Operand}
    (h : ∀ o ∈ os, o.Foreseen refused) :
    FailsWith (EvalError.Foreseen refused) (sequence t os) :=
  (FailsWith.mapM fun o ho => (h o ho).value).bind fun _ => .ok _

/-- A function passes on the errors of its arguments, and its own are of their kind. -/
theorem Function.invoke_foreseen (f : Function) (path : String) (model : Json) {os : List Operand}
    (h : ∀ o ∈ os, o.Foreseen refused) :
    FailsWith (EvalError.Foreseen refused) (f.invoke path model os) := by
  have hsequence (t : ElementType) := Operand.sequence_foreseen t h
  cases f with
  | aggregate a =>
    have hnumbers : FailsWith (EvalError.Foreseen refused) (Aggregation.numbers model os) :=
      (hsequence .number).bind fun _ => .ok _
    refine hnumbers.bind fun ns => ?_
    cases a.value? ns with
    | some v => exact .ok v
    | none => exact .error trivial
  | concat => exact (hsequence .string).bind fun _ => .ok _
  | length => exact .ok _
  | join =>
    have hdelimiter : FailsWith (EvalError.Foreseen refused) (Join.delimiter os) := by
      cases os with
      | nil => exact .ok _
      | cons o os => exact (h o List.mem_cons_self).value.bind fun _ => .ok _
    refine hdelimiter.bind fun d => FailsWith.bind (.mapM fun p _ => ?_) fun _ => .ok _
    cases hr : Join.replacement? os with
    | none => exact .ok _
    | some o =>
      have ho := h o (List.mem_of_getElem? hr)
      -- One outcome is read again for each element, at its position.
      exact (ho.moveTo p.2).value.bind fun _ => .ok _
  | first => exact .ok _
  | last => exact .ok _
  | index =>
    cases os with
    | nil => exact .error trivial
    | cons o os =>
      refine (h o List.mem_cons_self).value.bind fun argument => ?_
      cases argument.toInt64? with
      | none => exact .error trivial
      | some i => exact .ok _
  | append =>
    cases model with
    | array es => exact (hsequence .any).bind fun _ => .ok _
    | _ => exact .error trivial
  | keys => exact .ok _

theorem Token.invoke_foreseen {r : Resolver} {e : Environment} {as : List Argument} (name path : String)
    (model : Json) (h : ∀ a ∈ as, ∀ (f : Function) (i : Nat),
      (a.operandAt r f e model i).Foreseen refused) :
    FailsWith (EvalError.Foreseen refused)
      (invoke r e name path (Parameter.ofArguments as) model) := by
  -- The binder leaves no parameter of a compiled call unbound, so the check for one is gone here.
  rw [invoke_ofArguments]
  refine FailsWith.bind ?_ fun f => f.invoke_foreseen path model fun o ho => ?_
  · unfold Registry.lookup
    split
    · exact .ok _
    · exact .error trivial
  · obtain ⟨i, hi, rfl⟩ := List.mem_mapIdx.mp ho
    exact h _ (List.getElem_mem hi) f i

theorem Token.reach_foreseen {r : Resolver} {e : Environment} {ts : List Token}
    (h : ∀ t ∈ ts, ∀ c, FailsWith (EvalError.Foreseen refused) (t.step r e c)) (c : Cursor) :
    FailsWith (EvalError.Foreseen refused) (reach r e c ts) := by
  induction ts generalizing c with
  | nil => exact .ok c
  | cons t ts ih =>
    obtain ⟨ht, hts⟩ := List.forall_mem_cons.mp h
    exact (ht c).bind fun d => ih hts d

variable {c : Configuration} {root : Json}

theorem Binding.json_foreseen {text : String} (h : Json.parse? text = none → refused)
    (r : Resolver) : ((json text c).operand r).Foreseen refused := by
  cases hv : Json.parse? text with
  | none =>
    rw [operand_json_of_none hv]
    exact .error (h hv)
  | some v =>
    rw [operand_json_of_some hv]
    exact .ok v

theorem Argument.operandAt_foreseen {a : Argument}
    (hliteral : ∀ v, a = .literal v → Json.parse? v.text = none → refused)
    (hpath : ∀ p, a = .path p → ∀ t ∈ (Plan.ofPath p).chain, ∀ d : Cursor,
      FailsWith (EvalError.Foreseen refused) (t.step Closure.value ⟨c, root⟩ d))
    (f : Function) (model : Json) (i : Nat) :
    (a.operandAt Closure.value f ⟨c, root⟩ model i).Foreseen refused := by
  cases a with
  | literal v =>
    rw [operandAt_literal]
    exact Binding.json_foreseen (hliteral v rfl) Closure.value
  | path p =>
    have hp : FailsWith (EvalError.Foreseen refused)
        ((Plan.ofPath p).value (p.root.scope root model) root c) := by
      rw [Plan.value_eq, Plan.reach]
      exact FailsWith.map _ (Token.reach_foreseen (hpath p rfl) _)
    rw [operandAt_path]
    simp only
    split <;> exact hp

theorem Segment.step_foreseen {s : Segment} {r : Resolver} {e : Environment}
    (h : ∀ name as, s = .call name as → ∀ a ∈ as, ∀ (f : Function) (model : Json) (i : Nat),
      (a.operandAt r f e model i).Foreseen refused) (d : Cursor) :
    FailsWith (EvalError.Foreseen refused) ((Token.ofSegment s).step r e d) := by
  cases s with
  | property name =>
    simp only [Token.ofSegment, Token.step]
    split
    · split
      · exact .ok _
      · exact .error trivial
    · exact .error trivial
  | index i =>
    simp only [Token.ofSegment, Token.step]
    split
    · split
      · exact .ok _
      · exact .error trivial
    · exact .error trivial
  | call name as =>
    refine (Token.invoke_foreseen name d.path d.value fun a ha f i => ?_).bind fun v => .ok _
    exact h name as rfl a ha f d.value i

/-- By induction on the path: a call passes on the errors of the paths in its arguments. -/
theorem Path.step_foreseen (p : Path)
    (h : ∀ v ∈ p.literals, Json.parse? v.text = none → refused) :
    ∀ t ∈ (Plan.ofPath p).chain, ∀ d : Cursor,
      FailsWith (EvalError.Foreseen refused) (t.step Closure.value ⟨c, root⟩ d) := by
  induction p using Path.induction with
  | step symbol ss ih =>
    refine Plan.forall_mem_chain_ofPath symbol (fun d => .ok _) fun s hs => ?_
    apply Segment.step_foreseen
    intro name as hcall a ha
    subst hcall
    have hliterals : ∀ v ∈ a.literals, Json.parse? v.text = none → refused :=
      fun v hv => h v (mem_literals_of_argument hs ha hv)
    apply Argument.operandAt_foreseen
    · intro v hv
      subst hv
      exact hliterals v List.mem_cons_self
    · intro q hq
      subst hq
      exact ih name as hs q ha hliterals

theorem Context.answer_foreseen (found : Context) (o : Options) :
    FailsWith (EvalError.Foreseen refused) (found.answer o) := by
  have hresult : FailsWith (EvalError.Foreseen refused) found.result := by
    unfold Context.result
    split
    · split
      · exact .ok _
      · exact .error trivial
    · exact .ok _
  unfold Context.answer
  split
  · exact .ok _
  · exact hresult.bind fun _ => .ok _

namespace Plan

theorem evaluate_foreseen {p : Path}
    (h : ∀ v ∈ p.literals, Json.parse? v.text = none → refused) (document : Json) :
    FailsWith (EvalError.Foreseen refused) ((ofPath p).evaluate document root c) := by
  intro err herr
  exact Token.reach_foreseen (Path.step_foreseen p h) _ err (evaluate_error_iff.mp herr)

theorem read_foreseen {p : Path} (h : ∀ v ∈ p.literals, Json.parse? v.text = none → refused)
    (document : Json) : FailsWith (EvalError.Foreseen refused) ((ofPath p).read c document) := by
  have hanswer : FailsWith (EvalError.Foreseen refused)
      (((ofPath p).evaluate document document c).bind (·.answer c.options)) :=
    (evaluate_foreseen h document).bind fun found => found.answer_foreseen c.options
  intro err herr
  unfold read at herr
  split at herr
  next => cases herr
  next err' hbind =>
    split at herr <;> cases herr
    exact hanswer err hbind

end Plan

end

/-- JSON text that a path can write is refused for its depth or for a number alone. -/
theorem Path.refused_literal {text : String} {p : Path} (h : Path.parse? text = some p) {v : Json}
    (hv : v ∈ p.literals) (hnone : Json.parse? v.text = none) : 127 < v.depth ∨ ¬ v.Integral := by
  by_cases hi : v.Integral
  · rw [Json.parse?_text (ordered_of_mem_literals h hv) hi] at hnone
    split at hnone
    next => cases hnone
    next hdepth => exact .inl (Nat.lt_of_not_le hdepth)
  · exact .inr hi

/-- The kinds of error that are foreseen. -/
theorem EvalError.Foreseen.kind {refused : Prop} {err : EvalError} (h : err.Foreseen refused) :
    err.kind = .unknownFunction ∨ err.kind = .invalidArgument ∨ err.kind = .pathNotFound ∨
      err.kind = .invalidJson ∧ refused := by
  unfold Foreseen at h
  cases hk : err.kind <;> simp_all

namespace Plan

/-- Evaluating or reading a path that compiles never meets an unbound parameter or a malformed path,
whatever its arguments are, and malformed JSON only if one of its literals nests too deep or holds a
number that is no integer. -/
theorem failures_foreseen {text : String} {plan : Plan} (h : compile text = .ok plan) :
    ∃ p, Path.parse? text = some p ∧ plan = ofPath p ∧
      ∀ (document root : Json) (c : Configuration) (err : EvalError),
        plan.evaluate document root c = .error err ∨ plan.read c document = .error err →
          err.kind = .unknownFunction ∨ err.kind = .invalidArgument ∨ err.kind = .pathNotFound ∨
          err.kind = .invalidJson ∧ ∃ v ∈ p.literals, 127 < v.depth ∨ ¬ v.Integral := by
  obtain ⟨p, hp, rfl⟩ := compile_eq_ok_iff.mp h
  have hliteral : ∀ v ∈ p.literals, Json.parse? v.text = none →
      ∃ v ∈ p.literals, 127 < v.depth ∨ ¬ v.Integral :=
    fun v hv hnone => ⟨v, hv, Path.refused_literal hp hv hnone⟩
  refine ⟨p, hp, rfl, ?_⟩
  intro document root c err herr
  rcases herr with herr | herr
  · exact (evaluate_foreseen hliteral document err herr).kind
  · exact (read_foreseen hliteral document err herr).kind

/-- `index('x')` fails, and with it the call that takes its result, two paths deep. -/
theorem failures_foreseen_nested :
    let p : Path := ⟨.document, [.property "a", .call "concat"
      [.path ⟨.document, [.call "join" [.literal (.string "-"),
        .path ⟨.current, [.property "b", .call "index" [.literal (.string "x")]]⟩]]⟩]]⟩
    let d : Json := .object [("a", .string "y"), ("b", .array [])]
    let err : EvalError := .invalidIndex (.string "x")
    compile "$.a.concat($.join('-', @.b.index(\"x\")))" = .ok (ofPath p) ∧
      (ofPath p).read .standard d = .error err ∧
      (err.kind = .unknownFunction ∨ err.kind = .invalidArgument ∨ err.kind = .pathNotFound ∨
        err.kind = .invalidJson ∧ ∃ v ∈ p.literals, 127 < v.depth ∨ ¬ v.Integral) := by
  intro p d err
  have hp : Path.parse? "$.a.concat($.join('-', @.b.index(\"x\")))" = some p := by cbv
  have hcompile : compile "$.a.concat($.join('-', @.b.index(\"x\")))" = .ok (ofPath p) :=
    compile_eq_ok_iff.mpr ⟨p, hp, rfl⟩
  have hread : (ofPath p).read .standard d = .error err := by cbv
  refine ⟨hcompile, hread, ?_⟩
  obtain ⟨q, hq, _, herr⟩ := failures_foreseen hcompile
  obtain rfl : p = q := Option.some.inj (hp.symm.trans hq)
  exact herr d d .standard err (.inr hread)

end Plan
end JsonPath
