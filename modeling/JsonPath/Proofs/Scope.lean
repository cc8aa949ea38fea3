import JsonPath.Proofs.Arguments

/-! What `$` and `@` mean in the arguments of calls, however deep these nest: `$` the root of the whole
evaluation, `@` the value that the call is made on. -/
namespace JsonPath

/-- A call as it is met: on which value, in which environment. -/
structure Call where
  environment : Environment
  name : String
  model : Json
  parameters : List Parameter

def Binding.closure? : Binding → Option Closure
  | path c | element c _ => some c
  | json .. => none

/-- The calls that an evaluation meets: those that its chain reaches, and those met by the paths that
a call already met binds to its parameters. -/
inductive Closure.Meets : Closure → Call → Prop where
  | own {cl : Closure} {before after : List Token} {c : Cursor} {name : String} {bare : Bool}
      {ps : List Parameter} (hchain : cl.plan.chain = before ++ .call name bare ps :: after)
      (hreach : Token.reach Closure.value ⟨cl.configuration, cl.root⟩ (Plan.start cl.document)
        before = .ok c) :
    Meets cl ⟨⟨cl.configuration, cl.root⟩, name, c.value, ps⟩
  | argument {cl inner : Closure} {k k' : Call} {f : Function} {p : Parameter} (hk : Meets cl k)
      (hf : k.environment.configuration.registry.lookup k.name = .ok f)
      (hp : p ∈ f.bind k.environment k.model k.parameters)
      (hc : p.binding.bind Binding.closure? = some inner) (hk' : Meets inner k') :
    Meets cl k'

/-- What a function gets for the parameters of a call. -/
def Call.operands (k : Call) (f : Function) : List Operand :=
  (f.bind k.environment k.model k.parameters).map Parameter.resolve

theorem Argument.operandAt_path (f : Function) (e : Environment) (model : Json) (i : Nat)
    (p : Path) :
    (Argument.path p).operandAt Closure.value f e model i =
      let v := (Plan.ofPath p).value (p.root.scope e.root model) e.root e.configuration
      if f = .join ∧ i = 1 then .element v 0 else .whole v := by
  unfold operandAt
  simp only [binding, Binding.toElement, Binding.operand, Closure.value_eq]
  rfl

theorem Parameter.ofArguments_of_mem_chain {p : Path} {name : String} {bare : Bool}
    {ps : List Parameter} (h : Token.call name bare ps ∈ (Plan.ofPath p).chain) :
    ∃ as, ps = Parameter.ofArguments as := by
  obtain ⟨symbol, ss⟩ := p
  simp only [Plan.chain_ofPath, Token.ofSegments_eq, List.mem_cons, reduceCtorEq,
    false_or, List.mem_map] at h
  obtain ⟨s, _, hs⟩ := h
  cases s with
  | call name as => cases hs; exact ⟨as, rfl⟩
  | _ => cases hs

/-- Every path that a compiled call binds is compiled, and goes on with the root of the call. -/
theorem Function.closure_of_mem_bind {f : Function} {e : Environment} {model : Json}
    {as : List Argument} {p : Parameter} {cl : Closure}
    (hp : p ∈ f.bind e model (Parameter.ofArguments as))
    (hc : p.binding.bind Binding.closure? = some cl) :
    ∃ q, cl = Argument.closure e model q := by
  obtain ⟨i, hi⟩ := List.mem_iff_getElem?.mp hp
  rw [getElem?_bind_ofArguments] at hi
  obtain ⟨a, _, rfl⟩ := Option.map_eq_some_iff.mp hi
  cases a with
  | literal v => split at hc <;> cases hc
  | path q => exact ⟨q, by split at hc <;> cases hc <;> rfl⟩

/-- The environment is the same at every depth. -/
theorem Closure.Meets.environment_eq {cl : Closure} {k : Call} (h : cl.Meets k) (q : Path)
    (hq : cl.plan = Plan.ofPath q) :
    k.environment = ⟨cl.configuration, cl.root⟩ ∧ ∃ as, k.parameters = Parameter.ofArguments as := by
  induction h generalizing q with
  | @own cl before after c name bare ps hchain hreach =>
    refine ⟨rfl, ?_⟩
    rw [hq] at hchain
    have hmem : Token.call name bare ps ∈ (Plan.ofPath q).chain := by simp [hchain]
    exact Parameter.ofArguments_of_mem_chain hmem
  | @argument cl inner k k' f p hk hf hp hc hk' ih ih' =>
    obtain ⟨he, as, has⟩ := ih q hq
    rw [has] at hp
    obtain ⟨q', rfl⟩ := Function.closure_of_mem_bind hp hc
    obtain ⟨he', has'⟩ := ih' q' rfl
    exact ⟨by rw [he']; simp [Argument.closure, he], has'⟩

mutual

/-- Whether no argument, at any depth, starts at the document. -/
def Path.documentFree : Path → Bool
  | ⟨_, ss⟩ => Segment.allDocumentFree ss

def Segment.allDocumentFree : List Segment → Bool
  | [] => true
  | s :: ss => s.documentFree && Segment.allDocumentFree ss

def Segment.documentFree : Segment → Bool
  | .call _ as => Argument.allDocumentFree as
  | _ => true

def Argument.allDocumentFree : List Argument → Bool
  | [] => true
  | a :: as => a.documentFree && Argument.allDocumentFree as

def Argument.documentFree : Argument → Bool
  | .literal _ => true
  | .path p => p.root == .current && p.documentFree

end

theorem Segment.allDocumentFree_iff {ss : List Segment} :
    allDocumentFree ss = true ↔ ∀ s ∈ ss, s.documentFree = true := by
  induction ss with
  | nil => simp [allDocumentFree]
  | cons s ss ih => simp [allDocumentFree, ih]

theorem Argument.allDocumentFree_iff {as : List Argument} :
    allDocumentFree as = true ↔ ∀ a ∈ as, a.documentFree = true := by
  induction as with
  | nil => simp [allDocumentFree]
  | cons a as ih => simp [allDocumentFree, ih]

section
variable {c : Configuration} {root root' : Json}

theorem Argument.operandAt_documentFree {a : Argument} (h : a.documentFree = true)
    (hpath : ∀ p, a = .path p → p.documentFree = true → ∀ t ∈ (Plan.ofPath p).chain, ∀ d : Cursor,
      t.step Closure.value ⟨c, root⟩ d = t.step Closure.value ⟨c, root'⟩ d)
    (f : Function) (model : Json) (i : Nat) :
    a.operandAt Closure.value f ⟨c, root⟩ model i =
      a.operandAt Closure.value f ⟨c, root'⟩ model i := by
  cases a with
  | literal v => rfl
  | path p =>
    rw [documentFree, Bool.and_eq_true, beq_iff_eq] at h
    have hv : (Plan.ofPath p).value model root c = (Plan.ofPath p).value model root' c := by
      rw [Plan.value_eq, Plan.value_eq, Plan.reach, Plan.reach,
        Token.reach_congr_of_step (hpath p rfl h.2)]
    simp only [operandAt_path, h.1, Root.scope, hv]

/-- A call steps as it does with another root if it sees its arguments as it does there. -/
theorem Token.step_call_congr {name : String} {as : List Argument}
    (h : ∀ a ∈ as, ∀ (f : Function) (model : Json) (i : Nat),
      a.operandAt Closure.value f ⟨c, root⟩ model i =
        a.operandAt Closure.value f ⟨c, root'⟩ model i) (d : Cursor) :
    (ofSegment (.call name as)).step Closure.value ⟨c, root⟩ d =
      (ofSegment (.call name as)).step Closure.value ⟨c, root'⟩ d := by
  have hoperands (f : Function) :
      (as.mapIdx fun i a => a.operandAt Closure.value f ⟨c, root⟩ d.value i) =
        as.mapIdx fun i a => a.operandAt Closure.value f ⟨c, root'⟩ d.value i := by
    apply List.ext_getElem?
    intro i
    rw [List.getElem?_mapIdx, List.getElem?_mapIdx]
    cases hi : as[i]? with
    | none => rfl
    | some a => rw [Option.map_some, Option.map_some, h a (List.mem_of_getElem? hi)]
  simp only [step_call, hoperands]

/-- By induction on the path: the root is seen by nothing but the arguments of calls. -/
theorem Path.step_documentFree (p : Path) (h : p.documentFree = true) :
    ∀ t ∈ (Plan.ofPath p).chain, ∀ d : Cursor,
      t.step Closure.value ⟨c, root⟩ d = t.step Closure.value ⟨c, root'⟩ d := by
  induction p using Path.induction with
  | step symbol ss ih =>
    have hss : ∀ s ∈ ss, s.documentFree = true := Segment.allDocumentFree_iff.mp h
    refine Plan.forall_mem_chain_ofPath symbol (fun d => rfl) fun s hs d => ?_
    cases s with
    | property name => rfl
    | index i => rfl
    | call name as =>
      have has : ∀ a ∈ as, a.documentFree = true := Argument.allDocumentFree_iff.mp (hss _ hs)
      refine Token.step_call_congr (fun a ha => ?_) d
      refine Argument.operandAt_documentFree (has a ha) ?_
      intro q hq
      subst hq
      exact ih name as hs q ha

end

namespace Plan

theorem operand_of_subPath (f : Function) (e : Environment) (model : Json) {as : List Argument}
    {i : Nat} {q : Plan} (h : (Parameter.ofArguments as)[i]? = some (.subPath q)) :
    ((f.bind e model (Parameter.ofArguments as)).map Parameter.resolve)[i]? =
      let v := q.value (q.root.scope e.root model) e.root e.configuration
      some (if f = .join ∧ i = 1 then .element v 0 else .whole v) := by
  rw [Parameter.ofArguments_eq, List.getElem?_map, Option.map_eq_some_iff] at h
  obtain ⟨a, ha, hq⟩ := h
  unfold Parameter.resolve
  rw [f.operands_ofArguments, List.getElem?_mapIdx, ha]
  cases a with
  | literal v => cases hq
  | path p =>
    cases hq
    rw [Option.map_some, Argument.operandAt_path]
    cases p
    rfl

/-- At every depth an argument `$…` has the value of its path in the root of the whole evaluation, and
`@…` that of its path in the model of the call, where `$` still is that root; the second argument of a
join is read element by element. So an evaluation in which no argument starts with `$` does not
depend on the root. -/
theorem argument_scope (p : Path) (document root : Json) (c : Configuration) :
    (∀ k, Closure.Meets ⟨ofPath p, document, root, c⟩ k →
      (∃ as, k.parameters = Parameter.ofArguments as) ∧
      ∀ (f : Function) (i : Nat) (q : Plan), k.parameters[i]? = some (.subPath q) →
        let v := match q.root with
          | .document => q.value root root c
          | .current => q.value k.model root c
        (k.operands f)[i]? = some (if f = .join ∧ i = 1 then .element v 0 else .whole v)) ∧
    (p.documentFree = true → ∀ root' : Json,
      ((ofPath p).evaluate document root c).map (·.hits) =
        ((ofPath p).evaluate document root' c).map (·.hits)) := by
  constructor
  · intro k hk
    obtain ⟨he, as, has⟩ := hk.environment_eq p rfl
    refine ⟨⟨as, has⟩, ?_⟩
    intro f i q hq
    rw [has] at hq
    have h := operand_of_subPath f ⟨c, root⟩ k.model hq
    unfold Call.operands
    rw [he, has, h]
    cases q.root <;> rfl
  · intro h root'
    rw [map_hits_evaluate, map_hits_evaluate,
      Token.walk_congr_of_step (Path.step_documentFree p h)]

/-- In `$.a.sum(@.b.sum($.c))` the inner `$.c` is looked up in the root, two calls deep; `$.c.sum(@)`
does not depend on it. -/
theorem argument_scope_nested :
    let n (i : Nat) : Json := .ofInt i
    let q : Path := ⟨.document, [.property "c"]⟩
    let inner : Path := ⟨.current, [.property "b", .call "sum" [.path q]]⟩
    let p : Path := ⟨.document, [.property "a", .call "sum" [.path inner]]⟩
    let free : Path := ⟨.document, [.property "c", .call "sum" [.path ⟨.current, []⟩]]⟩
    let d : Json := .object [("a", .object [("b", .array [n 1]), ("c", n 2)]), ("c", n 3)]
    let r : Json := .object [("c", n 4)]
    let k : Call := ⟨⟨.standard, r⟩, "sum", .array [n 1], [.subPath (ofPath q)]⟩
    Closure.Meets ⟨ofPath p, d, r, .standard⟩ k ∧
      (k.operands (.aggregate .sum))[0]? = some (.whole (.ok (n 4))) ∧
      ((ofPath free).evaluate d r .standard).map (·.hits) =
        ((ofPath free).evaluate d .null .standard).map (·.hits) := by
  intro n q inner p free d r k
  have houter : Closure.Meets ⟨ofPath p, d, r, .standard⟩
      ⟨⟨.standard, r⟩, "sum", .object [("b", .array [n 1]), ("c", n 2)], [.subPath (ofPath inner)]⟩ :=
    @Closure.Meets.own _ [.root '$', .property "a"] []
      ⟨"$['a']", .property "a", .object [("b", .array [n 1]), ("c", n 2)]⟩ _ false _ rfl (by cbv)
  have hinner : Closure.Meets
      ⟨ofPath inner, .object [("b", .array [n 1]), ("c", n 2)], r, .standard⟩ k :=
    @Closure.Meets.own _ [.root '@', .property "b"] []
      ⟨"@['b']", .property "b", .array [n 1]⟩ _ false _ rfl (by cbv)
  have hk : Closure.Meets ⟨ofPath p, d, r, .standard⟩ k :=
    .argument houter (f := .aggregate .sum) (by cbv) List.mem_cons_self rfl hinner
  have hc : (ofPath q).value r r .standard = .ok (n 4) := by cbv
  refine ⟨hk, ?_, (argument_scope free d r .standard).2 rfl .null⟩
  have h := ((argument_scope p d r .standard).1 k hk).2 (.aggregate .sum) 0 (ofPath q) rfl
  rw [h]
  exact congrArg (fun x => some (Operand.whole x)) hc

end Plan
end JsonPath
