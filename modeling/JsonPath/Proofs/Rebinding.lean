import JsonPath.Binding.Lemmas
import JsonPath.Proofs.Arguments

/-! Binding the parameters of a call again, as when a bound call is evaluated once more: what is bound
stays bound to what it was first bound to. -/
namespace JsonPath

namespace Parameter

/-- What binding makes of a parameter. A fresh binding takes the place of one that was there. -/
inductive BindsTo (e : Environment) (model : Json) : Parameter → Parameter → Prop where
  | resolved (s : Source) (b : Option Binding) : BindsTo e model ⟨s, b, true⟩ ⟨s, b, true⟩
  | unbound (b : Option Binding) : BindsTo e model ⟨.none, b, false⟩ ⟨.none, b, false⟩
  | literal (text : String) (b : Option Binding) :
    BindsTo e model ⟨.literal text, b, false⟩ ⟨.literal text, some (.json text e.configuration), true⟩
  | path (p : Plan) (b : Option Binding) :
    BindsTo e model ⟨.path p, b, false⟩
      ⟨.path p, some (.path ⟨p, p.root.scope e.root model, e.root, e.configuration⟩), true⟩

/-- What a join then makes of its second parameter. Only a path that is read as a whole is read by its
elements instead, from the first one on. -/
inductive Splits : Parameter → Parameter → Prop where
  | none (s : Source) (r : Bool) : Splits ⟨s, .none, r⟩ ⟨s, .none, r⟩
  | json (s : Source) (text : String) (c : Configuration) (r : Bool) :
    Splits ⟨s, some (.json text c), r⟩ ⟨s, some (.json text c), r⟩
  | path (s : Source) (c : Closure) (r : Bool) :
    Splits ⟨s, some (.path c), r⟩ ⟨s, some (.element c 0), r⟩
  | element (s : Source) (c : Closure) (i : Nat) (r : Bool) :
    Splits ⟨s, some (.element c i), r⟩ ⟨s, some (.element c i), r⟩

/-- Nothing is left to bind. -/
def Settled (p : Parameter) : Prop := p.resolved = true ∨ p.source = .none

variable {e : Environment} {model : Json} {p : Parameter}

theorem bindsTo_bind (e : Environment) (model : Json) (p : Parameter) :
    BindsTo e model p (p.bind e model) := by
  obtain ⟨source, b, resolved⟩ := p
  cases resolved with
  | true => apply BindsTo.resolved
  | false =>
    cases source with
    | literal text => apply BindsTo.literal
    | path p =>
      have hbind : (⟨.path p, b, false⟩ : Parameter).bind e model = ⟨.path p,
          some (.path ⟨p, if p.isRootPath then e.root else model, e.root, e.configuration⟩), true⟩ :=
        rfl
      rw [hbind, p.ite_isRootPath]
      apply BindsTo.path
    | none => apply BindsTo.unbound

theorem splits_toElement (p : Parameter) : Splits p p.toElement := by
  obtain ⟨source, b, resolved⟩ := p
  cases b with
  | none => apply Splits.none
  | some b =>
    cases b with
    | json text c => apply Splits.json
    | path c => apply Splits.path
    | element c i => apply Splits.element

theorem BindsTo.source_eq {q : Parameter} (h : BindsTo e model p q) : q.source = p.source := by
  cases h <;> rfl

theorem BindsTo.settled {q : Parameter} (h : BindsTo e model p q) : q.Settled := by
  cases h with
  | resolved => exact .inl rfl
  | unbound => exact .inr rfl
  | literal => exact .inl rfl
  | path => exact .inl rfl

theorem Settled.bind (h : p.Settled) (e : Environment) (model : Json) : p.bind e model = p := by
  obtain ⟨source, b, resolved⟩ := p
  cases h with
  | inl hresolved =>
    cases hresolved
    rfl
  | inr hsource =>
    cases hsource
    cases resolved <;> rfl

theorem Settled.toElement (h : p.Settled) : p.toElement.Settled := h

theorem source_toElement (p : Parameter) : p.toElement.source = p.source := rfl

theorem toElement_toElement (p : Parameter) : p.toElement.toElement = p.toElement := by
  obtain ⟨source, b, resolved⟩ := p
  rcases b with _ | b
  · rfl
  · cases b <;> rfl

end Parameter

namespace Function

open Parameter

variable (e : Environment) (model : Json) (f : Function) (i : Nat) (p : Parameter)

theorem settled_bindAt : (f.bindAt e model i p).Settled := by
  have hp : (p.bind e model).Settled := (bindsTo_bind e model p).settled
  unfold bindAt
  split_ifs
  · exact hp.toElement
  · exact hp

theorem source_bindAt : (f.bindAt e model i p).source = p.source := by
  have hp : (p.bind e model).source = p.source := (bindsTo_bind e model p).source_eq
  unfold bindAt
  split_ifs
  · rw [source_toElement, hp]
  · exact hp

/-- The kinds of the parameters, and with them number and order. -/
theorem map_source_bind (ps : List Parameter) :
    (f.bind e model ps).map source = ps.map source := by
  apply List.ext_getElem?
  intro i
  have hsource : source ∘ f.bindAt e model i = source := funext (source_bindAt e model f i)
  rw [List.getElem?_map, getElem?_bind, Option.map_map, hsource, List.getElem?_map]

/-- Whatever binds a second time, on whatever value, only a join leaves a trace, and only once. -/
theorem bindAt_bindAt (g : Function) (e' : Environment) (model' : Json) :
    g.bindAt e' model' i (f.bindAt e model i p) =
      (if f = join then join else g).bindAt e model i p := by
  have hbind := (settled_bindAt e model f i p).bind e' model'
  by_cases hf : f = join
  · rw [if_pos hf, bindAt, hbind, hf, bindAt]
    by_cases hi : i = 1
    · simp [hi, toElement_toElement]
    · simp [hi]
  · have hp : f.bindAt e model i p = p.bind e model := if_neg fun h => hf h.1
    rw [if_neg hf, bindAt, hbind, hp, bindAt]

theorem bind_bind (ps : List Parameter) (g : Function) (e' : Environment) (model' : Json) :
    g.bind e' model' (f.bind e model ps) = (if f = join then join else g).bind e model ps := by
  apply List.ext_getElem?
  intro i
  have htwice : g.bindAt e' model' i ∘ f.bindAt e model i =
      (if f = join then join else g).bindAt e model i :=
    funext fun p => bindAt_bindAt e model f i p g e' model'
  rw [getElem?_bind, getElem?_bind, Option.map_map, htwice, getElem?_bind]

end Function

/-- What the parameters of a call are first bound to they stay bound to, on whatever value and in
whatever environment they are bound again, and binding as any other function does makes no difference
to a join that binds after it. Binding keeps the parameters in their places and changes no more of them
than it must. A join changes one more, its second. -/
theorem bind_first_wins (e e' : Environment) (model model' : Json) (ps : List Parameter) :
    let bound := Parameter.bindAll e model ps
    let joined := Function.join.bind e model ps
    Parameter.bindAll e' model' bound = bound ∧
    Function.join.bind e' model' joined = joined ∧
    Function.join.bind e' model' bound = joined ∧
    bound.map Parameter.source = ps.map Parameter.source ∧
    joined.map Parameter.source = ps.map Parameter.source ∧
    List.Forall₂ (Parameter.BindsTo e model) ps bound ∧
    Option.Rel Parameter.Splits bound[1]? joined[1]? ∧
    ∀ i, i ≠ 1 → joined[i]? = bound[i]? := by
  intro bound joined
  have hmap : joined = bound.modify 1 Parameter.toElement := rfl
  -- Any other function binds as `length` does, by the default pass.
  refine ⟨Function.bind_bind e model .length ps .length e' model',
    Function.bind_bind e model .join ps .join e' model',
    Function.bind_bind e model .length ps .join e' model',
    Function.map_source_bind e model .length ps, Function.map_source_bind e model .join ps,
    ?_, ?_, ?_⟩
  · apply List.forall₂_map_right_iff.mpr
    apply List.forall₂_same.mpr
    intro p _
    exact Parameter.bindsTo_bind e model p
  · rw [hmap, List.getElem?_modify_eq]
    cases bound[1]? with
    | none => exact .none
    | some p => exact .some (Parameter.splits_toElement p)
  · intro i hi
    rw [hmap, List.getElem?_modify_ne _ _ (Ne.symm hi)]

/-- A join binds a literal with a stale binding and a path; a binding without anything to bind and a
parameter that is marked resolved stay as they are. -/
theorem bind_first_wins_stale :
    let q : Plan := Plan.ofPath ⟨.document, [.property "a"]⟩
    let d : Json := .object [("a", .array [.null])]
    let stale : Closure := ⟨q, .null, .null, .standard⟩
    let ps : List Parameter := [(Parameter.literal "1").setBinding (.json "2" .standard),
      Parameter.subPath q, Parameter.unbound.setBinding (.path stale),
      (Parameter.subPath q).markResolved true]
    let joined := Function.join.bind ⟨.standard, d⟩ d ps
    joined = [⟨.literal "1", some (.json "1" .standard), true⟩,
        ⟨.path q, some (.element ⟨q, d, d, .standard⟩ 0), true⟩,
        ⟨.none, some (.path stale), false⟩, ⟨.path q, none, true⟩] ∧
      Function.join.bind ⟨.standard, .null⟩ .null joined = joined ∧
      joined[2]? = (Parameter.bindAll ⟨.standard, d⟩ d ps)[2]? := by
  intro q d stale ps joined
  obtain ⟨_, hjoined, _, _, _, _, _, hother⟩ :=
    bind_first_wins ⟨.standard, d⟩ ⟨.standard, .null⟩ d .null ps
  exact ⟨rfl, hjoined, hother 2 (by decide)⟩

end JsonPath
