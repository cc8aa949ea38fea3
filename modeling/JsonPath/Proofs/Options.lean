import JsonPath.Answer
import JsonPath.Proofs.Chain

/-! Options never reach an evaluation, however deep its arguments nest: they give its outcome a
shape, and nothing else. -/
namespace JsonPath

def Configuration.setOptions (o : Options) (c : Configuration) : Configuration :=
  { c with options := o }

def Environment.setOptions (o : Options) (e : Environment) : Environment :=
  { e with configuration := e.configuration.setOptions o }

def Closure.setOptions (o : Options) (c : Closure) : Closure :=
  { c with configuration := c.configuration.setOptions o }

def Binding.setOptions (o : Options) : Binding → Binding
  | json text c => json text (c.setOptions o)
  | path c => path (c.setOptions o)
  | element c i => element (c.setOptions o) i

def Parameter.setOptions (o : Options) (p : Parameter) : Parameter :=
  { p with binding := p.binding.map (Binding.setOptions o) }

/-- A resolver gives closures lower than `n` the same values under all options. -/
def Resolver.IgnoresOptions (n : Nat) (r : Resolver) : Prop :=
  ∀ c : Closure, c.height < n → ∀ o, r (c.setOptions o) = r c

open Resolver

theorem Binding.operand_setOptions {n : Nat} {r : Resolver} (h : IgnoresOptions n r) {b : Binding}
    (hb : b.height < n) (o : Options) : (b.setOptions o).operand r = b.operand r := by
  cases b with
  | json text c => rfl
  | path c => simp only [setOptions, operand, h c hb]
  | element c i => simp only [setOptions, operand, h c hb]

theorem Parameter.operand_setOptions {n : Nat} {r : Resolver} (h : IgnoresOptions n r)
    {p : Parameter} (hp : p.bindingHeight < n) (o : Options) :
    (p.setOptions o).operand r = p.operand r := by
  obtain ⟨source, binding, resolved⟩ := p
  cases binding with
  | none => rfl
  | some b => exact Binding.operand_setOptions h hp o

variable (e : Environment) (model : Json) (o o' : Options)

theorem Source.bind?_setOptions (s : Source) :
    s.bind? (e.setOptions o) model = (s.bind? e model).map (Binding.setOptions o) := by
  cases s <;> rfl

/-- A parameter that comes with a binding keeps the options in it; they are overwritten here to
compare it with another. -/
theorem Parameter.setOptions_bind (p : Parameter) :
    (p.bind (e.setOptions o) model).setOptions o' = (p.bind e model).setOptions o' := by
  unfold Parameter.bind
  by_cases hr : p.resolved
  · rw [if_pos hr, if_pos hr]
  · rw [if_neg hr, if_neg hr, Source.bind?_setOptions]
    cases hb : p.source.bind? e model with
    | none => rfl
    | some b => cases b <;> rfl

theorem Parameter.setOptions_toElement (p : Parameter) :
    p.toElement.setOptions o = (p.setOptions o).toElement := by
  obtain ⟨source, binding, resolved⟩ := p
  cases binding with
  | none => rfl
  | some b => cases b <;> rfl

theorem Function.map_setOptions_bind (f : Function) (ps : List Parameter) :
    (f.bind (e.setOptions o) model ps).map (Parameter.setOptions o') =
      (f.bind e model ps).map (Parameter.setOptions o') := by
  apply List.ext_getElem?
  intro i
  rw [List.getElem?_map, List.getElem?_map, getElem?_bind, getElem?_bind, Option.map_map,
    Option.map_map]
  congr 1
  funext p
  have hbind := p.setOptions_bind e model o o'
  simp only [Function.comp, bindAt]
  split
  · rw [Parameter.setOptions_toElement, Parameter.setOptions_toElement, hbind]
  · exact hbind

namespace Token

variable {n : Nat} {r : Resolver}

theorem invoke_setOptions (h : IgnoresOptions n r) (name path : String) {ps : List Parameter}
    (hps : Parameter.maxHeight ps < n) :
    invoke r (e.setOptions o) name path ps model = invoke r e name path ps model := by
  unfold invoke
  congr 1
  funext f
  have hbound := f.map_setOptions_bind e model o .empty ps
  have hnone (qs : List Parameter) : (qs.findIdx? fun p => p.binding.isNone) =
      (qs.map (Parameter.setOptions .empty)).findIdx? fun p => p.binding.isNone := by
    simp [List.findIdx?_map, Function.comp_def, Parameter.setOptions]
  have hoperands (e : Environment) : (f.bind e model ps).map (·.operand r) =
      ((f.bind e model ps).map (Parameter.setOptions .empty)).map (·.operand r) := by
    rw [List.map_map]
    refine List.map_congr_left fun p hp => (Parameter.operand_setOptions h ?_ .empty).symm
    exact Nat.lt_of_le_of_lt (f.bindingHeight_le_of_mem_bind e model ps p hp) hps
  have hsame : ((f.bind (e.setOptions o) model ps).findIdx? fun p => p.binding.isNone) =
      (f.bind e model ps).findIdx? fun p => p.binding.isNone := by
    rw [hnone, hbound, ← hnone]
  have hseen : (f.bind (e.setOptions o) model ps).map (·.operand r) =
      (f.bind e model ps).map (·.operand r) := by
    rw [hoperands, hbound, ← hoperands]
  simp only [hsame, hseen]

theorem step_setOptions (h : IgnoresOptions n r) (c : Cursor) {t : Token} (ht : t.height < n) :
    t.step r (e.setOptions o) c = t.step r e c := by
  cases t with
  | call name bare ps => simp only [step, invoke_setOptions e c.value o h name c.path ht]
  | _ => rfl

end Token

namespace Plan

theorem step_chain_setOptions (p : Plan) (h : IgnoresOptions p.height Closure.value) :
    ∀ t ∈ p.chain, ∀ c,
      t.step Closure.value (e.setOptions o) c = t.step Closure.value e c := by
  intro t ht c
  have hlt := Nat.lt_of_le_of_lt (Token.height_le_maxHeight ht) p.maxHeight_chain_lt
  exact Token.step_setOptions e o h c hlt

end Plan

namespace Closure

/-- By induction on the height: what a call binds is lower than the path that the call is in. -/
theorem ignoresOptions (n : Nat) : IgnoresOptions n value := by
  induction n with
  | zero => intro c hc; omega
  | succ n ih =>
    intro c hc o
    have hlow : IgnoresOptions c.plan.height value := by
      intro d hd
      have := c.height_eq
      exact ih d (by omega)
    have hreach := Token.reach_congr_of_step
      (c.plan.step_chain_setOptions ⟨c.configuration, c.root⟩ o hlow) (Plan.start c.document)
    have hvalue : c.plan.value c.document c.root (c.configuration.setOptions o) =
        c.plan.value c.document c.root c.configuration := by
      rw [Plan.value_eq, Plan.value_eq]
      exact congrArg (Except.map (·.value)) hreach
    rw [value_eq, value_eq]
    exact hvalue

theorem value_setOptions (c : Closure) : (c.setOptions o).value = c.value :=
  ignoresOptions (c.height + 1) c (Nat.lt_succ_self _) o

end Closure

/-- The answer that a last hit gives. -/
def Options.shape (o : Options) (h : Hit) : Json :=
  if o.asPathList then .array [.string h.path]
  else if o.alwaysList then .array [h.value]
  else h.value

theorem Context.answer_of_last {found : Context} {hit : Hit} (hd : found.definite = true)
    (hl : found.hits.getLast? = some hit) : found.answer o = .ok (o.shape hit) := by
  unfold answer answerPaths result paths Options.shape
  simp only [hd, if_true, hl, List.getLast?_map, Option.map_some, Option.toList_some,
    List.map_cons, List.map_nil, Bool.and_true]
  split
  · rfl
  · cases o.alwaysList <;> rfl

namespace Plan

variable {p : Plan} {document root : Json} {registry : Registry} {o o' : Options}

theorem map_hits_setOptions (p : Plan) (document root : Json) (registry : Registry)
    (o o' : Options) : (p.evaluate document root ⟨registry, o⟩).map (·.hits) =
      (p.evaluate document root ⟨registry, o'⟩).map (·.hits) := by
  rw [map_hits_evaluate, map_hits_evaluate]
  have hsteps := p.step_chain_setOptions ⟨⟨registry, o'⟩, root⟩ o (Closure.ignoresOptions _)
  rw [← Token.walk_congr_of_step hsteps]
  rfl

theorem evaluate_error_setOptions {err : EvalError}
    (h : p.evaluate document root ⟨registry, o⟩ = .error err) (o' : Options) :
    p.evaluate document root ⟨registry, o'⟩ = .error err := by
  have hits := p.map_hits_setOptions document root registry o o'
  rw [h] at hits
  cases h' : p.evaluate document root ⟨registry, o'⟩ with
  | error err' => rw [h'] at hits; cases hits; rfl
  | ok found' => rw [h'] at hits; cases hits

theorem evaluate_ok_setOptions {found : Context}
    (h : p.evaluate document root ⟨registry, o⟩ = .ok found) (o' : Options) :
    ∃ found', p.evaluate document root ⟨registry, o'⟩ = .ok found' ∧
      found'.hits = found.hits := by
  have hits := p.map_hits_setOptions document root registry o o'
  rw [h] at hits
  cases h' : p.evaluate document root ⟨registry, o'⟩ with
  | error err' => rw [h'] at hits; cases hits
  | ok found' => rw [h'] at hits; exact ⟨found', rfl, (Except.ok.inj hits).symm⟩

theorem read_of_ok {found : Context} (h : p.evaluate document document ⟨registry, o'⟩ = .ok found)
    (o : Options) : ∃ hit, found.hits.getLast? = some hit ∧
      p.read ⟨registry, o⟩ document = .ok (o.shape hit) := by
  obtain ⟨found', h', hhits⟩ := evaluate_ok_setOptions h o
  obtain ⟨hdefinite, hit, hlast⟩ := exists_last_hit h'
  refine ⟨hit, hhits ▸ hlast, ?_⟩
  simp only [read, h', Except.bind, Context.answer_of_last o hdefinite hlast]

theorem read_of_error {err : EvalError}
    (h : p.evaluate document document ⟨registry, o'⟩ = .error err) (o : Options) :
    p.read ⟨registry, o⟩ document =
      if o.suppressErrors then .ok (if o.asPathList ∨ o.alwaysList then .array [] else .null)
      else .error err := by
  simp only [read, evaluate_error_setOptions h o, Except.bind, Options.emptyAnswer,
    Bool.or_eq_true]

/-- Reading without options gives the value, which no option changes. -/
theorem read_eq_value (p : Plan) (document : Json) (c : Configuration) :
    p.read ⟨c.registry, .empty⟩ document = p.value document document c := by
  cases he : p.evaluate document document c with
  | error err =>
    have hread := read_of_error he .empty
    simp only [value, he, hread]
    rfl
  | ok found =>
    obtain ⟨hit, hlast, hread⟩ := read_of_ok he .empty
    have hdefinite := (exists_last_hit he).1
    simp only [value, he, hread, Except.bind, Context.result, hdefinite, hlast, if_true]
    rfl

/-- An evaluation finds the same under all options, and so does every path among its arguments.
Reading gives the last hit of the evaluation without options, as its path or its value, in a list or
not; a failure is passed on or gives an empty answer. So reading never fails where errors are
suppressed, and suppressing them changes no answer. -/
theorem options_only_shape (p : Plan) (document : Json) (registry : Registry) :
    (∀ (root : Json) (o o' : Options),
      (p.evaluate document root ⟨registry, o⟩).map (·.hits) =
        (p.evaluate document root ⟨registry, o'⟩).map (·.hits)) ∧
    (∀ o : Options,
      match p.evaluate document document ⟨registry, .empty⟩ with
      | .ok found => ∃ hit, found.hits.getLast? = some hit ∧
          p.read ⟨registry, o⟩ document = .ok (o.shape hit)
      | .error err => p.read ⟨registry, o⟩ document =
          if o.suppressErrors then .ok (if o.asPathList ∨ o.alwaysList then .array [] else .null)
          else .error err) ∧
    (∀ o : Options, o.suppressErrors = true → ∃ v, p.read ⟨registry, o⟩ document = .ok v ∧
      ∀ w, p.read ⟨registry, { o with suppressErrors := false }⟩ document = .ok w → w = v) ∧
    ∀ (c : Closure) (o : Options), (c.setOptions o).value = c.value := by
  refine ⟨fun root o o' => p.map_hits_setOptions document root registry o o', ?_, ?_,
    fun c o => c.value_setOptions o⟩
  · intro o
    split
    next found h => exact read_of_ok h o
    next err h => exact read_of_error h o
  · intro o ho
    cases h : p.evaluate document document ⟨registry, .empty⟩ with
    | ok found =>
      obtain ⟨hit, hlast, hread⟩ := read_of_ok h o
      refine ⟨_, hread, ?_⟩
      intro w hw
      obtain ⟨hit', hlast', hread'⟩ := read_of_ok h { o with suppressErrors := false }
      rw [hlast] at hlast'
      cases hlast'
      rw [hread'] at hw
      exact (Except.ok.inj hw).symm
    | error err =>
      have hread := read_of_error h o
      rw [if_pos ho] at hread
      refine ⟨_, hread, ?_⟩
      intro w hw
      have hread' := read_of_error h { o with suppressErrors := false }
      rw [hread'] at hw
      cases hw

/-- `$.a.concat($.c)` in `{"a": "x", "c": [1]}`, read as a list of paths; in `null` it fails, which
suppressed gives `null`. -/
theorem options_only_shape_concat :
    let p : Path := ⟨.document,
      [.property "a", .call "concat" [.path ⟨.document, [.property "c"]⟩]]⟩
    let d : Json := .object [("a", .string "x"), ("c", .array [.ofInt 1])]
    let suppress : Options := ⟨false, false, true⟩
    (ofPath p).read ⟨.standard, ⟨true, true, true⟩⟩ d = .ok (.array [.string "$['a'].concat"]) ∧
      suppress.suppressErrors = true ∧ (ofPath p).read ⟨.standard, suppress⟩ .null = .ok .null := by
  intro p d suppress
  have hd : (ofPath p).evaluate d d ⟨.standard, .empty⟩ = .ok ⟨⟨⟨.standard, .empty⟩, d⟩, true,
      [⟨"$['a'].concat", .property "a", .string "x1"⟩]⟩ := by cbv
  have hnull : (ofPath p).evaluate .null .null ⟨.standard, .empty⟩ =
      .error (.notAnObject "a" "$" "null") := by cbv
  have hpaths := (options_only_shape (ofPath p) d .standard).2.1 ⟨true, true, true⟩
  have hempty := (options_only_shape (ofPath p) .null .standard).2.1 suppress
  rw [hd] at hpaths
  rw [hnull] at hempty
  obtain ⟨hit, hlast, hread⟩ := hpaths
  cases hlast
  exact ⟨hread, rfl, hempty⟩

end Plan
end JsonPath
