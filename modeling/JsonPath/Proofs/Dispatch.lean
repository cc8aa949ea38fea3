import JsonPath.Proofs.Failures
import JsonPath.Proofs.Rebinding

/-! What a call checks before its function runs: that the name is registered, and then that
something is bound to each parameter. What is bound is not looked at. -/
namespace JsonPath

namespace Parameter

/-- Nothing is bound to the parameter, and binding leaves it so. -/
def Unbindable (p : Parameter) : Prop := p.binding = none ∧ (p.source = .none ∨ p.resolved = true)

/-- The least position with an unbindable parameter. -/
def FirstUnbindable (ps : List Parameter) (i : Nat) : Prop :=
  ∃ hi : i < ps.length, ps[i].Unbindable ∧ ∀ (j : Nat) (hj : j < i), ¬ ps[j].Unbindable

/-- The paths that a parameter holds are those that texts can write. -/
structure Compiled (p : Parameter) : Prop where
  source : ∀ q, p.source = .path q → ∃ s, q = Plan.ofPath s
  binding : ∀ cl, p.binding.bind Binding.closure? = some cl → ∃ s, cl.plan = Plan.ofPath s

variable {e : Environment} {model : Json} {p q : Parameter}

theorem BindsTo.binding_eq_none_iff (h : BindsTo e model p q) :
    q.binding = none ↔ p.Unbindable := by
  unfold Unbindable
  cases h <;> simp

theorem BindsTo.compiled (h : BindsTo e model p q) (hp : p.Compiled) : q.Compiled := by
  refine ⟨?_, ?_⟩
  · rw [h.source_eq]
    exact hp.source
  · intro cl hcl
    cases h with
    | resolved => exact hp.binding cl hcl
    | unbound => exact hp.binding cl hcl
    | literal => cases hcl
    | path plan =>
      cases hcl
      exact hp.source plan rfl

theorem closure?_toElement (p : Parameter) :
    p.toElement.binding.bind Binding.closure? = p.binding.bind Binding.closure? := by
  obtain ⟨source, b, resolved⟩ := p
  rcases b with _ | b
  · rfl
  · cases b <;> rfl

theorem compiled_ofArgument (a : Argument) : (ofArgument a).Compiled := by
  constructor
  · intro q hq
    cases a with
    | literal v => cases hq
    | path s =>
      cases hq
      exact ⟨s, rfl⟩
  · intro cl hcl
    cases a <;> cases hcl

theorem Compiled.toElement (h : p.Compiled) : p.toElement.Compiled := by
  refine ⟨h.source, ?_⟩
  rw [closure?_toElement]
  exact h.binding

end Parameter

namespace Function

open Parameter

variable {f : Function} {e : Environment} {model : Json} {ps : List Parameter}

theorem binding_bindAt_eq_none_iff {i : Nat} {p : Parameter} :
    (f.bindAt e model i p).binding = none ↔ p.Unbindable := by
  have hp : (p.bind e model).binding = none ↔ p.Unbindable :=
    (bindsTo_bind e model p).binding_eq_none_iff
  unfold bindAt
  split_ifs
  · rw [← hp]
    exact Option.map_eq_none_iff
  · exact hp

theorem compiled_of_mem_bind (hps : ∀ p ∈ ps, p.Compiled) :
    ∀ p ∈ f.bind e model ps, p.Compiled := by
  intro q hq
  obtain ⟨i, p, hp, rfl⟩ := exists_of_mem_bind hq
  have hbound : (p.bind e model).Compiled := (bindsTo_bind e model p).compiled (hps p hp)
  unfold bindAt
  split_ifs
  · exact hbound.toElement
  · exact hbound

/-- Whatever function binds them, the parameters without a binding are the unbindable ones. -/
theorem findIdx?_bind_eq_some_iff {i : Nat} :
    (f.bind e model ps).findIdx? (fun p => p.binding.isNone) = some i ↔ FirstUnbindable ps i := by
  unfold FirstUnbindable
  simp only [bind_eq_mapIdx, List.findIdx?_eq_some_iff_getElem, List.getElem_mapIdx,
    List.length_mapIdx, Option.isNone_iff_eq_none, binding_bindAt_eq_none_iff]

theorem binding_ne_none_of_mem_bind (hps : ∀ p ∈ ps, ¬ p.Unbindable) :
    ∀ p ∈ f.bind e model ps, p.binding ≠ none := by
  intro q hq
  obtain ⟨i, p, hp, rfl⟩ := exists_of_mem_bind hq
  rw [ne_eq, binding_bindAt_eq_none_iff]
  exact hps p hp

end Function

namespace Parameter

theorem exists_firstUnbindable {ps : List Parameter} (h : ∃ p ∈ ps, p.Unbindable) :
    ∃ i, FirstUnbindable ps i := by
  classical
  have hsome : (ps.findIdx? fun p => p.Unbindable).isSome := by
    rw [List.findIdx?_isSome, List.any_eq_true]
    obtain ⟨p, hp, hu⟩ := h
    exact ⟨p, hp, decide_eq_true hu⟩
  obtain ⟨i, hi⟩ := Option.isSome_iff_exists.mp hsome
  rw [List.findIdx?_eq_some_iff_getElem] at hi
  refine ⟨i, ?_⟩
  simpa [FirstUnbindable] using hi

end Parameter

/-- The calls of a path fail with foreseen errors only, and so does the path. -/
theorem Closure.value_foreseen {cl : Closure} {s : Path} (h : cl.plan = Plan.ofPath s) :
    FailsWith (EvalError.Foreseen True) cl.value := by
  obtain ⟨plan, document, root, c⟩ := cl
  cases h
  have hvalue : Closure.value ⟨Plan.ofPath s, document, root, c⟩ =
      (Plan.ofPath s).value document root c := Closure.value_eq _
  rw [hvalue, Plan.value_eq, Plan.reach]
  apply FailsWith.map
  apply Token.reach_foreseen
  exact Path.step_foreseen s fun _ _ _ => trivial

theorem Parameter.Compiled.operand_foreseen {p : Parameter} (h : p.Compiled)
    (hb : p.binding ≠ none) : p.resolve.Foreseen True := by
  obtain ⟨source, b, resolved⟩ := p
  rcases b with _ | b
  · exact absurd rfl hb
  · cases b with
    | json text c => exact Binding.json_foreseen (c := c) (fun _ => trivial) Closure.value
    | path cl =>
      obtain ⟨s, hs⟩ := h.binding cl rfl
      exact Closure.value_foreseen hs
    | element cl i =>
      obtain ⟨s, hs⟩ := h.binding cl rfl
      exact Closure.value_foreseen hs

namespace Call

/-- A call gives a path to its function, bound to one of the parameters. -/
def Gives (k : Call) (cl : Closure) : Prop :=
  ∃ (f : Function) (p : Parameter), k.environment.configuration.registry.lookup k.name = .ok f ∧
    p ∈ f.bind k.environment k.model k.parameters ∧ p.binding.bind Binding.closure? = some cl

/-- The paths whose values a call can need, those inside other paths included. -/
inductive Resolves (k : Call) : Closure → Prop where
  | own {cl : Closure} (h : k.Gives cl) : Resolves k cl
  | inner {cl inner : Closure} {k' : Call} (h : Resolves k cl) (hk' : cl.Meets k')
      (hinner : k'.Gives inner) : Resolves k inner

theorem Gives.compiled {k : Call} {cl : Closure} (h : k.Gives cl)
    (hps : ∀ p ∈ k.parameters, p.Compiled) : ∃ s, cl.plan = Plan.ofPath s := by
  obtain ⟨f, p, _, hp, hcl⟩ := h
  exact (Function.compiled_of_mem_bind hps p hp).binding cl hcl

theorem Resolves.compiled {k : Call} {cl : Closure} (h : k.Resolves cl)
    (hps : ∀ p ∈ k.parameters, p.Compiled) : ∃ s, cl.plan = Plan.ofPath s := by
  induction h with
  | own h => exact h.compiled hps
  | @inner outer inner k' _ hk' hinner ih =>
    obtain ⟨s, hs⟩ := ih
    obtain ⟨_, as, has⟩ := hk'.environment_eq s hs
    apply hinner.compiled
    rw [has, Parameter.ofArguments_eq, List.forall_mem_map]
    intro a _
    exact Parameter.compiled_ofArgument a

end Call

namespace Registry

variable {registry : Registry} {name : String}

theorem lookup_of_not_contains (h : registry.contains name = false) :
    registry.lookup name = .error (.unknownFunction name) := by
  unfold contains Dictionary.contains at h
  rw [Option.isSome_eq_false_iff, Option.isNone_iff_eq_none] at h
  simp only [lookup, h]

theorem exists_lookup_of_contains (h : registry.contains name = true) :
    ∃ f, registry.lookup name = .ok f := by
  unfold contains Dictionary.contains at h
  obtain ⟨f, hf⟩ := Option.isSome_iff_exists.mp h
  exact ⟨f, by simp only [lookup, hf]⟩

end Registry

namespace Token

variable {r : Resolver} {e : Environment} {c : Cursor} {name : String} {bare : Bool}
  {ps : List Parameter} {f : Function}

theorem step_of_unknown (h : e.configuration.registry.contains name = false) :
    (call name bare ps).step r e c = .error (.unknownFunction name) := by
  simp only [step, invoke, Registry.lookup_of_not_contains h]
  rfl

theorem step_of_firstUnbindable (hf : e.configuration.registry.lookup name = .ok f) {i : Nat}
    (hi : Parameter.FirstUnbindable ps i) :
    (call name bare ps).step r e c = .error (.unboundParameter i name) := by
  have hfind : (f.bind e c.value ps).findIdx? (fun p => p.binding.isNone) = some i :=
    Function.findIdx?_bind_eq_some_iff.mpr hi
  simp only [step, invoke, hf, bind, Except.bind, hfind]

theorem step_of_bindable (hf : e.configuration.registry.lookup name = .ok f)
    (hps : ∀ p ∈ ps, ¬ p.Unbindable) :
    (call name bare ps).step r e c =
      (f.invoke c.path c.value ((f.bind e c.value ps).map (·.operand r))).map
        fun v => { c with value := v } := by
  have hfind : (f.bind e c.value ps).findIdx? (fun p => p.binding.isNone) = none := by
    rw [List.findIdx?_eq_none_iff]
    intro p hp
    rw [Option.isNone_eq_false_iff, Option.isSome_iff_ne_none]
    exact Function.binding_ne_none_of_mem_bind hps p hp
  simp only [step, invoke, hf, bind, Except.bind, hfind]
  rfl

end Token

theorem Context.follow_of_error {found : Context} {r : Resolver} {c : Cursor} {t : Token}
    {err : EvalError} (h : t.step r found.toEnvironment c = .error err) (ts : List Token) :
    found.follow r c (t :: ts) = (found, .error err) := by
  simp only [follow, Token.walk_fail h, record, List.append_nil]

theorem EvalError.Foreseen.kind_ne {refused : Prop} {err : EvalError} (h : err.Foreseen refused) :
    err.kind ≠ .unboundParameter := by
  intro hk
  unfold Foreseen at h
  rw [hk] at h
  exact h

/-- The first thing that stops a call is a name that is not registered, and the next one a parameter
with nothing bound and nothing to bind, the first of them. Both stop it whatever the paths in the
arguments give, with nothing recorded and the rest of the chain not run. In all other cases no
missing parameter is met any more: neither by the function nor by any path that it needs, at any
depth. -/
theorem Token.call_dispatch (found : Context) (c : Cursor) (name : String) (bare : Bool)
    (ps : List Parameter) (hps : ∀ p ∈ ps, p.Compiled) :
    let e := found.toEnvironment
    let registry := e.configuration.registry
    let t : Token := .call name bare ps
    let stops (err : EvalError) : Prop :=
      ∀ (r : Resolver) (ts : List Token), found.follow r c (t :: ts) = (found, .error err)
    let other (err : EvalError) : Prop := err.kind ≠ .unboundParameter
    (registry.contains name = false → stops (.unknownFunction name)) ∧
    (registry.contains name = true →
      ((∃ err, t.step Closure.value e c = .error err ∧ err.kind = .unboundParameter) ↔
        ∃ p ∈ ps, p.Unbindable) ∧
      (∀ i, Parameter.FirstUnbindable ps i → stops (.unboundParameter i name) ∧
        (EvalError.unboundParameter i name).detail =
          "Parameter " ++ toString i ++ " of '" ++ name ++ "' has no late binding") ∧
      ((∀ p ∈ ps, ¬ p.Unbindable) → ∃ f, registry.lookup name = .ok f ∧
        FailsWith other (f.invoke c.path c.value ((f.bind e c.value ps).map Parameter.resolve)) ∧
        ∀ cl, Call.Resolves ⟨e, name, c.value, ps⟩ cl → FailsWith other cl.value)) := by
  intro e registry t stops other
  have hother {α : Type} {x : Except EvalError α} (h : FailsWith (EvalError.Foreseen True) x) :
      FailsWith other x := fun err herr => (h err herr).kind_ne
  have hfollow {err : EvalError} (h : ∀ r, t.step r e c = .error err) : stops err :=
    fun r ts => Context.follow_of_error (h r) ts
  refine ⟨?_, ?_⟩
  · intro hname
    exact hfollow fun r => step_of_unknown hname
  · intro hname
    obtain ⟨f, hf⟩ := Registry.exists_lookup_of_contains hname
    have hunbindable {i : Nat} (hi : Parameter.FirstUnbindable ps i) (r : Resolver) :
        t.step r e c = .error (.unboundParameter i name) := step_of_firstUnbindable hf hi
    let operands : List Operand := (f.bind e c.value ps).map Parameter.resolve
    have hinvoke (hall : ∀ p ∈ ps, ¬ p.Unbindable) :
        FailsWith other (f.invoke c.path c.value operands) := by
      apply hother
      apply f.invoke_foreseen
      rw [List.forall_mem_map]
      intro p hp
      have hcompiled : p.Compiled := Function.compiled_of_mem_bind hps p hp
      exact hcompiled.operand_foreseen (Function.binding_ne_none_of_mem_bind hall p hp)
    refine ⟨?_, ?_, ?_⟩
    · constructor
      · -- Once everything is bound, the errors that are left are foreseen ones, of other kinds.
        intro h
        obtain ⟨err, hstep, hkind⟩ := h
        by_contra hnone
        have hall : ∀ p ∈ ps, ¬ p.Unbindable := fun p hp hu => hnone ⟨p, hp, hu⟩
        rw [step_of_bindable hf hall] at hstep
        exact (hinvoke hall).map _ err hstep hkind
      · intro h
        obtain ⟨i, hi⟩ := Parameter.exists_firstUnbindable h
        exact ⟨_, hunbindable hi Closure.value, rfl⟩
    · intro i hi
      exact ⟨hfollow (hunbindable hi), rfl⟩
    · intro hall
      refine ⟨f, hf, hinvoke hall, ?_⟩
      intro cl hcl
      obtain ⟨s, hs⟩ := hcl.compiled hps
      exact hother (Closure.value_foreseen hs)

/-- A path that finds nothing, a parameter that is marked resolved without a binding and one that is
left empty: the second is what stops the call, and without the last two the path does. -/
theorem Token.call_dispatch_order :
    let p : Path := ⟨.document, [.property "a"]⟩
    let missing := Parameter.subPath (Plan.ofPath p)
    let marked := (Parameter.literal "1").markResolved true
    let ps := [missing, marked, .unbound]
    let found : Context := .start ⟨.standard, .object []⟩ true
    let c : Cursor := ⟨"$", .root, .object []⟩
    let cl : Closure := ⟨Plan.ofPath p, .object [], .object [], .standard⟩
    found.follow Closure.value c [.call "nope" false ps] =
        (found, .error (.unknownFunction "nope")) ∧
      found.follow Closure.value c [.call "concat" false ps, .call "length" true []] =
        (found, .error (.unboundParameter 1 "concat")) ∧
      cl.value = .error (.noMember "a" "$") ∧
      (EvalError.noMember "a" "$").kind ≠ .unboundParameter := by
  intro p missing marked ps found c cl
  have hmissing : missing.Compiled := Parameter.compiled_ofArgument (.path p)
  have hmarked : marked.Compiled := ⟨fun q hq => (by cases hq), fun cl hcl => (by cases hcl)⟩
  have hunbound : Parameter.unbound.Compiled :=
    ⟨fun q hq => (by cases hq), fun cl hcl => (by cases hcl)⟩
  have hps : ∀ p ∈ ps, p.Compiled := by
    simp only [ps, List.forall_mem_cons]
    exact ⟨hmissing, hmarked, hunbound, nofun⟩
  have hbindable : ¬ missing.Unbindable := by
    intro hu
    rcases hu.2 with h | h <;> cases h
  have hfirst : Parameter.FirstUnbindable ps 1 := by
    refine ⟨by decide, ⟨rfl, .inr rfl⟩, ?_⟩
    intro j hj
    obtain rfl : j = 0 := by omega
    exact hbindable
  have hresolves : Call.Resolves ⟨found.toEnvironment, "concat", c.value, [missing]⟩ cl :=
    .own ⟨.concat, _, by cbv, List.mem_cons_self, rfl⟩
  have hvalue : cl.value = .error (.noMember "a" "$") := by cbv
  have hunknown := (call_dispatch found c "nope" false ps hps).1 (by cbv)
  have hknown := (call_dispatch found c "concat" false ps hps).2 (by cbv)
  have hone := (call_dispatch found c "concat" false [missing]
    (List.forall_mem_singleton.mpr hmissing)).2 (by cbv)
  obtain ⟨_, _, _, hclosures⟩ := hone.2.2 (List.forall_mem_singleton.mpr hbindable)
  exact ⟨hunknown _ [], (hknown.2.1 1 hfirst).1 _ _, hvalue, hclosures cl hresolves _ hvalue⟩

end JsonPath
