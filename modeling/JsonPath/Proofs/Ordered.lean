import JsonPath.Proofs.Readable
import JsonPath.Proofs.Scope

/-! Every value that an evaluation meets has the members of its objects in order, if the document
has them so: it comes from the document, from a literal, or from a function of such values. -/
namespace JsonPath

open Reader

namespace Json

theorem readScalar_yields : readScalar.Yields Ordered := by
  refine (yields_pure ordered_null).seqRight.orElse ?_
  refine (yields_pure (ordered_bool true)).seqRight.orElse ?_
  refine (yields_pure (ordered_bool false)).seqRight.orElse ?_
  refine ((yields_true _).map fun k _ => ordered_string k).orElse ?_
  exact (yields_true _).map fun n _ => ordered_number n

theorem read_yields (n : Nat) : (read n).Yields Ordered := by
  induction n with
  | zero =>
    have hread : read 0 = readScalar := funext read_zero
    rw [hread]
    exact readScalar_yields
  | succ n ih =>
    have hitem : (readItem n).Yields Ordered := ih.padded
    have hmember : (readMember n).Yields fun m => m.2.Ordered :=
      (yields_true _).bind fun name _ => (yields_true _).bind fun _ _ =>
        hitem.bind fun v hv => yields_pure hv
    have harray : (readArray n).Yields Ordered :=
      hitem.sepBy.seqRight.seqLeft.map fun es => ordered_array_iff.mpr
    have hobject : (readObject n).Yields Ordered := by
      refine Yields.map (P := fun ms => (object ms).Ordered) ?_ fun _ hms => hms
      exact hmember.sepBy.seqRight.seqLeft.map fun ms hms => ordered_ofList hms
    have hread : read (n + 1) = (readScalar <|> readArray n <|> readObject n) := by
      funext s
      rw [read_succ, orElse_apply, orElse_apply]
    rw [hread]
    exact readScalar_yields.orElse (harray.orElse hobject)

theorem ordered_of_parse? {text : String} {v : Json} (h : parse? text = some v) : v.Ordered :=
  (read_yields maxDepth).padded.all? h

theorem ordered_ofInt (n : Int) : (ofInt n).Ordered := by
  unfold ofInt
  cases Number.ofInt? n with
  | none => exact ordered_null
  | some m => exact ordered_number m

theorem Ordered.of_mem_elements {v w : Json} (h : v.Ordered) (hw : w ∈ v.elements) :
    w.Ordered := by
  cases v with
  | array es => exact ordered_array_iff.mp h w hw
  | _ => cases hw

theorem Ordered.of_lookup? {ms : List (String × Json)} (h : (object ms).Ordered) {name : String}
    {v : Json} (hv : Dictionary.lookup? name ms = some v) : v.Ordered := by
  obtain ⟨before, after, rfl, _⟩ := List.lookup_eq_some_iff.mp hv
  exact (ordered_object_iff.mp h).2 (name, v) (by simp)

theorem ordered_getD {v? : Option Json} (h : ∀ v ∈ v?, v.Ordered) : (v?.getD null).Ordered := by
  cases v? with
  | none => exact ordered_null
  | some v => exact h v rfl

end Json

/-- An outcome whose value, if it is one, has a property. -/
def Gives {α : Type} (P : α → Prop) (x : Except EvalError α) : Prop := ∀ a, x = .ok a → P a

namespace Gives

variable {α β : Type} {P : α → Prop} {Q : β → Prop}

theorem ok {a : α} (h : P a) : Gives P (.ok a) := by
  intro b hb
  cases hb
  exact h

theorem error (err : EvalError) : Gives P (.error err) := by
  intro a h
  cases h

theorem bind {x : Except EvalError α} {f : α → Except EvalError β} (hx : Gives P x)
    (hf : ∀ a, P a → Gives Q (f a)) : Gives Q (x >>= f) := by
  intro b h
  cases x with
  | error err => cases h
  | ok a => exact hf a (hx a rfl) b h

theorem map {x : Except EvalError α} {f : α → β} (hx : Gives P x) (hf : ∀ a, P a → Q (f a)) :
    Gives Q (x.map f) := by
  intro b h
  cases x with
  | error err => cases h
  | ok a =>
    cases h
    exact hf a (hx a rfl)

theorem any (x : Except EvalError α) : Gives (fun _ => True) x := fun _ _ => trivial

theorem mapM {f : α → Except EvalError β} {as : List α} (hf : ∀ a ∈ as, Gives Q (f a)) :
    Gives (fun bs => ∀ b ∈ bs, Q b) (as.mapM f) := by
  induction as with
  | nil => exact ok fun b hb => by cases hb
  | cons a as ih =>
    obtain ⟨ha, has⟩ := List.forall_mem_cons.mp hf
    rw [List.mapM_cons]
    exact ha.bind fun b hb => (ih has).bind fun bs hbs =>
      ok (List.forall_mem_cons.mpr ⟨hb, hbs⟩)

end Gives

section Functions

/-- An argument that gives an ordered value or none. -/
def Operand.Ordered : Operand → Prop
  | whole v | element v _ => Gives Json.Ordered v

theorem Operand.Ordered.value {o : Operand} (h : o.Ordered) : Gives Json.Ordered o.value := by
  cases o with
  | whole v => exact h
  | element v i =>
    refine Gives.map h fun v hv => Json.ordered_getD fun w hw => ?_
    exact hv.of_mem_elements (List.mem_of_getElem? hw)

theorem ElementType.coerceElement?_ordered {t : ElementType} {v w : Json} (h : v.Ordered)
    (hw : t.coerceElement? v = some w) : w.Ordered := by
  unfold coerceElement? at hw
  split at hw
  · cases hw
  · split at hw
    · cases hw
      exact h
    · split at hw
      · cases hw
        exact Json.ordered_string _
      · cases hw

theorem ElementType.coerce_ordered (t : ElementType) {v : Json} (h : v.Ordered) :
    ∀ w ∈ t.coerce v, w.Ordered := by
  intro w hw
  unfold coerce at hw
  split at hw
  next es =>
    obtain ⟨e, he, hw⟩ := List.mem_filterMap.mp hw
    exact coerceElement?_ordered (h.of_mem_elements he) hw
  next =>
    split at hw
    · rwa [List.mem_singleton.mp hw]
    · cases hw

theorem Operand.sequence_ordered (t : ElementType) {os : List Operand}
    (h : ∀ o ∈ os, o.Ordered) : Gives (fun vs => ∀ v ∈ vs, v.Ordered) (sequence t os) := by
  refine Gives.bind (.mapM fun o ho => (h o ho).value) fun vs hvs => .ok fun w hw => ?_
  obtain ⟨v, hv, hw⟩ := List.mem_flatMap.mp hw
  exact t.coerce_ordered (hvs v hv) w hw

theorem Aggregation.result_ordered (x : Float) : (result x).Ordered := by
  unfold result
  split
  next => exact Json.ordered_null
  next =>
    split
    next =>
      split
      · exact Json.ordered_ofInt _
      · exact Json.ordered_number _
    next => exact Json.ordered_number _

theorem Aggregation.value?_ordered {a : Aggregation} {ns : List Number} {v : Json}
    (h : a.value? ns = some v) : v.Ordered := by
  cases ns with
  | nil => cases h
  | cons n ns =>
    simp only [value?] at h
    split at h
    next =>
      cases h
      exact Json.ordered_number _
    next =>
      cases h
      exact result_ordered _

theorem Function.invoke_ordered (f : Function) (path : String) {model : Json}
    (hmodel : model.Ordered) {os : List Operand} (h : ∀ o ∈ os, o.Ordered) :
    Gives Json.Ordered (f.invoke path model os) := by
  cases f with
  | aggregate a =>
    refine (Gives.any (Aggregation.numbers model os)).bind fun ns _ => ?_
    cases hv : a.value? ns with
    | none => exact .error _
    | some v => exact .ok (Aggregation.value?_ordered hv)
  | concat => exact (Gives.any _).bind fun _ _ => .ok (Json.ordered_string _)
  | length =>
    have hlength : (Length.invoke model).Ordered := by
      unfold Length.invoke
      split
      next n _ =>
        -- The bounds of an integer would be counted down for a cast number.
        generalize (n : Int) = m
        exact Json.ordered_ofInt m
      next => exact Json.ordered_null
    exact .ok hlength
  | join =>
    exact (Gives.any _).bind fun _ _ => (Gives.any _).bind fun _ _ => .ok (Json.ordered_string _)
  | first =>
    refine .ok (Json.ordered_getD fun v hv => ?_)
    exact hmodel.of_mem_elements (List.mem_of_head? hv)
  | last =>
    refine .ok (Json.ordered_getD fun v hv => ?_)
    exact hmodel.of_mem_elements (List.mem_of_getLast? hv)
  | index =>
    cases os with
    | nil => exact .error _
    | cons o os =>
      refine (Gives.any o.value).bind fun argument _ => ?_
      cases argument.toInt64? with
      | none => exact .error _
      | some i =>
        refine .ok ?_
        cases hp : Collection.pick? i.toInt model.elements with
        | none => exact Json.ordered_null
        | some p =>
          have hp := (Collection.pick?_eq_some_iff.mp hp).2
          exact hmodel.of_mem_elements (List.mem_of_getElem? hp)
  | append =>
    cases model with
    | array es =>
      refine (Operand.sequence_ordered .any h).bind fun vs hvs => .ok ?_
      rw [Json.ordered_array_iff, List.forall_mem_append]
      exact ⟨Json.ordered_array_iff.mp hmodel, hvs⟩
    | _ => exact .error _
  | keys =>
    refine .ok ?_
    unfold Collection.keys
    split
    · refine Json.ordered_array_iff.mpr fun v hv => ?_
      obtain ⟨k, _, rfl⟩ := List.mem_map.mp hv
      exact Json.ordered_string k
    · exact Json.ordered_null

end Functions

section Evaluation

/-- Whether a step from an ordered value leads to one. -/
def Token.KeepsOrder (e : Environment) (t : Token) : Prop :=
  ∀ d : Cursor, d.value.Ordered →
    Gives (fun d' : Cursor => d'.value.Ordered) (t.step Closure.value e d)

theorem Token.reach_ordered {e : Environment} {ts : List Token} (h : ∀ t ∈ ts, t.KeepsOrder e)
    {d : Cursor} (hd : d.value.Ordered) :
    Gives (fun d' : Cursor => d'.value.Ordered) (reach Closure.value e d ts) := by
  induction ts generalizing d with
  | nil => exact .ok hd
  | cons t ts ih =>
    obtain ⟨ht, hts⟩ := List.forall_mem_cons.mp h
    exact (ht d hd).bind fun d' hd' => ih hts hd'

variable {c : Configuration} {root : Json}

/-- The literal itself need not be ordered: what counts is what its text is read as. -/
theorem Binding.json_ordered (text : String) (r : Resolver) :
    ((json text c).operand r).Ordered := by
  cases hv : Json.parse? text with
  | none =>
    rw [operand_json_of_none hv]
    exact .error _
  | some v =>
    rw [operand_json_of_some hv]
    exact .ok (Json.ordered_of_parse? hv)

theorem Argument.operandAt_ordered {a : Argument} (hroot : root.Ordered)
    (hpath : ∀ p, a = .path p → ∀ t ∈ (Plan.ofPath p).chain, t.KeepsOrder ⟨c, root⟩)
    (f : Function) {model : Json} (hmodel : model.Ordered) (i : Nat) :
    (a.operandAt Closure.value f ⟨c, root⟩ model i).Ordered := by
  cases a with
  | literal v =>
    rw [operandAt_literal]
    exact Binding.json_ordered v.text Closure.value
  | path p =>
    have hscope : (p.root.scope root model).Ordered := by
      cases p.root with
      | document => exact hroot
      | current => exact hmodel
    have hp : Gives Json.Ordered ((Plan.ofPath p).value (p.root.scope root model) root c) := by
      rw [Plan.value_eq, Plan.reach]
      exact (Token.reach_ordered (hpath p rfl) hscope).map fun _ hd => hd
    rw [operandAt_path]
    simp only
    split <;> exact hp

theorem Segment.keepsOrder {s : Segment} (h : ∀ name as, s = .call name as → ∀ a ∈ as,
      ∀ (f : Function) {model : Json}, model.Ordered → ∀ i : Nat,
        (a.operandAt Closure.value f ⟨c, root⟩ model i).Ordered) :
    (Token.ofSegment s).KeepsOrder ⟨c, root⟩ := by
  intro d hd
  cases s with
  | property name =>
    simp only [Token.ofSegment, Token.step]
    split
    next ms hms =>
      split
      next v hv => exact .ok (Json.Ordered.of_lookup? (hms ▸ hd) hv)
      next => exact .error _
    next => exact .error _
  | index i =>
    simp only [Token.ofSegment, Token.step]
    split
    next es hes =>
      split
      next place v hp =>
        have hv := List.mem_of_getElem? (Collection.pick?_eq_some_iff.mp hp).2
        exact .ok (Json.ordered_array_iff.mp (hes ▸ hd) v hv)
      next => exact .error _
    next => exact .error _
  | call name as =>
    refine Gives.bind (P := Json.Ordered) ?_ fun v hv => .ok hv
    rw [Token.invoke_ofArguments]
    refine (Gives.any _).bind fun f _ => f.invoke_ordered d.path hd fun o ho => ?_
    obtain ⟨i, hi, rfl⟩ := List.mem_mapIdx.mp ho
    exact h name as rfl _ (List.getElem_mem hi) f hd i

/-- By induction on the path: a call sees ordered values if the paths in its arguments give them. -/
theorem Path.keepsOrder (hroot : root.Ordered) (p : Path) :
    ∀ t ∈ (Plan.ofPath p).chain, t.KeepsOrder ⟨c, root⟩ := by
  induction p using Path.induction with
  | step symbol ss ih =>
    refine Plan.forall_mem_chain_ofPath symbol (fun d hd => .ok hd) fun s hs => ?_
    apply Segment.keepsOrder
    intro name as hcall a ha f model hmodel i
    subst hcall
    refine Argument.operandAt_ordered hroot ?_ f hmodel i
    intro q hq
    subst hq
    exact ih name as hs q ha

/-- Paths have ordered values in ordered documents. -/
theorem Plan.value_ordered (hroot : root.Ordered) (p : Path) {document : Json}
    (hdocument : document.Ordered) :
    Gives Json.Ordered ((ofPath p).value document root c) := by
  rw [value_eq, reach]
  exact (Token.reach_ordered (Path.keepsOrder hroot p) hdocument).map fun _ hd => hd

end Evaluation
end JsonPath
