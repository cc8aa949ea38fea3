import JsonPath.Plan.Compile
import JsonPath.Proofs.Chain

/-! Calls that are compiled from path text: the binder leaves none of their parameters unbound, and
what a function sees of an argument is settled by the argument and its position. -/
namespace JsonPath

/-- What a path starts from, as an argument of a call on a model. -/
def Root.scope (document model : Json) : Root → Json
  | .document => document
  | .current => model

theorem Plan.ite_isRootPath (p : Plan) (document model : Json) :
    (if p.isRootPath then document else model) = p.root.scope document model := by
  obtain ⟨symbol, ts⟩ := p
  cases symbol <;> rfl

namespace Argument

variable {r : Resolver} {e : Environment} {model : Json}

def source : Argument → Source
  | literal v => .literal v.text
  | path p => .path (Plan.ofPath p)

/-- The path of an argument with all that its evaluation needs. -/
def closure (e : Environment) (model : Json) (p : Path) : Closure :=
  ⟨Plan.ofPath p, p.root.scope e.root model, e.root, e.configuration⟩

def binding (e : Environment) (model : Json) : Argument → Binding
  | literal v => .json v.text e.configuration
  | path p => .path (closure e model p)

/-- What a function sees of its argument at a position. Only the second argument of a join is read by
its elements, and only if it is a path. -/
def operandAt (r : Resolver) (f : Function) (e : Environment) (model : Json) (i : Nat)
    (a : Argument) : Operand :=
  if f = .join ∧ i = 1 then (a.binding e model).toElement.operand r
  else (a.binding e model).operand r

theorem operandAt_literal (r : Resolver) (f : Function) (e : Environment) (model : Json) (i : Nat)
    (v : Json) : (literal v).operandAt r f e model i =
      (Binding.json v.text e.configuration).operand r := by
  simp only [operandAt, binding, Binding.toElement, ite_self]

theorem bind?_source (a : Argument) :
    a.source.bind? e model = some (a.binding e model) := by
  cases a with
  | literal v => rfl
  | path p =>
    obtain ⟨symbol, ss⟩ := p
    cases symbol <;> rfl

theorem bind_ofArgument (a : Argument) :
    (Parameter.ofArgument a).bind e model = ⟨a.source, some (a.binding e model), true⟩ := by
  have hs : Parameter.ofArgument a = .ofSource a.source := by cases a <;> rfl
  rw [hs]
  simp only [Parameter.bind, Parameter.ofSource, Bool.false_eq_true, if_false, bind?_source]

end Argument

namespace Function

variable {r : Resolver} {e : Environment} {model : Json}

theorem getElem?_bind_ofArguments (f : Function) (as : List Argument) (i : Nat) :
    (f.bind e model (Parameter.ofArguments as))[i]? = as[i]?.map fun a =>
      if f = .join ∧ i = 1 then
        ⟨a.source, some (a.binding e model).toElement, true⟩
      else ⟨a.source, some (a.binding e model), true⟩ := by
  rw [getElem?_bind, Parameter.ofArguments_eq, List.getElem?_map, Option.map_map]
  congr 1
  funext a
  simp only [Function.comp, bindAt, Argument.bind_ofArgument]
  rfl

theorem operands_ofArguments (f : Function) (as : List Argument) :
    (f.bind e model (Parameter.ofArguments as)).map (·.operand r) =
      as.mapIdx fun i a => a.operandAt r f e model i := by
  apply List.ext_getElem?
  intro i
  rw [List.getElem?_map, getElem?_bind_ofArguments, List.getElem?_mapIdx, Option.map_map]
  cases as[i]? with
  | none => rfl
  | some a =>
    simp only [Option.map_some, Function.comp, Argument.operandAt, Option.some.injEq]
    split <;> rfl

theorem isSome_binding_of_mem_bind (f : Function) (as : List Argument) {p : Parameter}
    (hp : p ∈ f.bind e model (Parameter.ofArguments as)) : p.binding.isSome := by
  obtain ⟨i, hi⟩ := List.mem_iff_getElem?.mp hp
  rw [getElem?_bind_ofArguments] at hi
  obtain ⟨a, _, rfl⟩ := Option.map_eq_some_iff.mp hi
  split <;> rfl

end Function

/-- The result of a compiled call. -/
theorem Token.invoke_ofArguments (r : Resolver) (e : Environment) (name path : String)
    (as : List Argument) (model : Json) :
    invoke r e name path (Parameter.ofArguments as) model =
      (e.configuration.registry.lookup name).bind fun f =>
        f.invoke path model (as.mapIdx fun i a => a.operandAt r f e model i) := by
  unfold invoke
  congr 1
  funext f
  have hnone : (f.bind e model (Parameter.ofArguments as)).findIdx?
      (fun p => p.binding.isNone) = none := by
    rw [List.findIdx?_eq_none_iff]
    intro p hp
    have := f.isSome_binding_of_mem_bind as hp
    simpa using this
  simp only [hnone, f.operands_ofArguments]

/-- A compiled call leads to its result, at the place where it is made. -/
theorem Token.step_call (r : Resolver) (e : Environment) (name : String) (as : List Argument)
    (a : Cursor) :
    (ofSegment (.call name as)).step r e a =
      (e.configuration.registry.lookup name).bind fun f =>
        (f.invoke a.path a.value (as.mapIdx fun i b => b.operandAt r f e a.value i)).map
          fun v => { a with value := v } := by
  simp only [ofSegment, ofCall, step, invoke_ofArguments]
  cases e.configuration.registry.lookup name with
  | error err => rfl
  | ok f =>
    simp only [Except.bind]
    cases f.invoke a.path a.value (as.mapIdx fun i b => b.operandAt r f e a.value i) <;> rfl

end JsonPath
