import JsonPath.Proofs.Scope

/-! Joining with replacements. A join gets its second argument anew for each element, moved to the
position of the element; it gives what it would give with the value of that argument got once. -/
namespace JsonPath

/-- What does not depend on the elements is met once, or never if there are none. -/
theorem mapM_map_outcome {α β γ ε : Type} (x : Except ε α) (g : β → α → γ) (l : List β) :
    l.mapM (fun b => x.map (g b)) =
      if l.isEmpty then .ok [] else x.map fun a => l.map fun b => g b a := by
  cases x with
  | error err =>
    cases l with
    | nil => rfl
    | cons b l => rfl
  | ok a =>
    induction l with
    | nil => rfl
    | cons b l ih =>
      rw [List.mapM_cons, ih]
      cases l <;> rfl

namespace Join

/-- The elements of an array, or the value itself, without those that are `null`. -/
def items (v : Json) : List Json := (parts v).filter (!·.isNull)

/-- The text between the joined values that a delimiter stands for. -/
def separator (delimiter : Json) : String :=
  ((items delimiter).head?.map Json.stringify).getD ", "

/-- What stands for an element if the second argument has the value `labels`. -/
def substitute (labels : Json) (position : Nat) (element : Json) : Json :=
  let label := (labels.element? position).getD .null
  if element.isArray then .array (items label) else (items label).head?.getD .null

def unite (separator : String) (replacements : List Json) : Json :=
  .string (separator.intercalate ((replacements.filter (!·.isNull)).map Json.stringify))

/-- The outcome of the first argument as a separator. -/
def separator? : Option (Except EvalError Json) → Except EvalError String
  | some v => v.map separator
  | none => .ok ", "

/-- A join whose arguments have these outcomes. The second is looked at once, or never if there is
nothing to join. -/
def once (model : Json) (delimiter labels : Option (Except EvalError Json)) :
    Except EvalError Json := do
  let d ← separator? delimiter
  match labels with
  | none => return unite d (parts model)
  | some v =>
    if (parts model).isEmpty then return .string ""
    else return unite d ((parts model).mapIdx (substitute (← v)))

theorem coerceElement?_any :
    ElementType.any.coerceElement? = Option.guard fun v : Json => !v.isNull := by
  funext v
  cases v <;> rfl

/-- Every value but `null` fits. -/
theorem coerce_any (v : Json) : ElementType.any.coerce v = items v := by
  cases v with
  | array es =>
    unfold ElementType.coerce items parts
    rw [coerceElement?_any, List.filterMap_eq_filter]
  | _ => rfl

theorem delimiter_eq (os : List Operand) :
    delimiter os = separator? (os[0]?.map Operand.value) := by
  cases os with
  | nil => rfl
  | cons o os =>
    simp only [delimiter, coerce_any, List.getElem?_cons_zero, Option.map_some, separator?]
    cases o.value <;> rfl

/-- An argument that is read by its elements is read at the position of the element it replaces. -/
theorem replace_element (labels : Except EvalError Json) (element : Json) (position : Nat) :
    replace element position (some (.element labels 0)) =
      labels.map fun v => substitute v position element := by
  cases labels with
  | error err => rfl
  | ok v =>
    simp only [replace, Operand.moveTo, Operand.value, coerce_any]
    rfl

/-- The elements are gone through with one value of the second argument. -/
theorem mapM_replace_element (labels : Except EvalError Json) (model : Json) :
    ((parts model).zipIdx.mapM fun p => replace p.1 p.2 (some (.element labels 0))) =
      if (parts model).isEmpty then .ok []
      else labels.map fun v => (parts model).mapIdx (substitute v) := by
  have hempty : (parts model).zipIdx.isEmpty = (parts model).isEmpty := by
    cases parts model <;> rfl
  have hmap (v : Json) : ((parts model).zipIdx.map fun p => substitute v p.2 p.1) =
      (parts model).mapIdx (substitute v) := by
    rw [List.mapIdx_eq_zipIdx_map]
  have houtcome := mapM_map_outcome labels (fun (p : Json × Nat) v => substitute v p.2 p.1)
    (parts model).zipIdx
  simp only [hempty, hmap] at houtcome
  simp only [replace_element]
  exact houtcome

theorem mapM_replace_none (model : Json) :
    ((parts model).zipIdx.mapM fun p => replace p.1 p.2 none) = .ok (parts model) := by
  have hpure : ((parts model).zipIdx.mapM fun p => (pure p.1 : Except EvalError Json)) =
      pure ((parts model).zipIdx.map Prod.fst) := List.mapM_pure
  rw [List.zipIdx_map_fst] at hpure
  exact hpure

/-- With the outcomes of its arguments, a join is what `once` says. -/
theorem invoke_eq_once (model : Json) {os : List Operand} {labels : Option (Except EvalError Json)}
    (h : os[1]? = labels.map fun x => Operand.element x 0) :
    invoke model os = once model (os[0]?.map Operand.value) labels := by
  unfold invoke once replacement?
  rw [delimiter_eq, h]
  congr 1
  funext d
  cases labels with
  | none =>
    simp only [Option.map_none, mapM_replace_none]
    rfl
  | some x =>
    simp only [Option.map_some, mapM_replace_element]
    -- Without elements the labels are not looked at, even if they fail.
    cases parts model with
    | nil => rfl
    | cons element elements => cases x <;> rfl

end Join

/-- A path that a join binds as its second argument, as the join sees it. -/
theorem Parameter.resolve_toElement_subPath (e : Environment) (model : Json) (q : Plan) :
    ((subPath q).bind e model).toElement.resolve =
      .element (q.value (q.root.scope e.root model) e.root e.configuration) 0 := by
  have hresolve : ((subPath q).bind e model).toElement.resolve =
      .element (Closure.value ⟨q, if q.isRootPath then e.root else model, e.root,
        e.configuration⟩) 0 := rfl
  rw [hresolve, q.ite_isRootPath, Closure.value_eq]
  rfl

theorem Function.operands_join (e : Environment) (model : Json) (ps : List Parameter) :
    let os := (join.bind e model ps).map Parameter.resolve
    os[0]? = ps[0]?.map (fun p : Parameter => (p.bind e model).resolve) ∧
      os[1]? = ps[1]?.map fun p : Parameter => (p.bind e model).toElement.resolve := by
  intro os
  constructor
  · rw [List.getElem?_map, getElem?_bind, Option.map_map]
    rfl
  · rw [List.getElem?_map, getElem?_bind, Option.map_map]
    rfl

/-- A join gives what it would give with the value of its delimiter and that of the path in its
second argument got once each: the elements of the model, or what the path gives at their positions,
are turned into text and put together in order. -/
theorem join_eq_once (e : Environment) (path : String) (model : Json) (ps : List Parameter)
    (q : Option Plan) (h : ps[1]? = q.map .subPath) :
    Function.join.invoke path model ((Function.join.bind e model ps).map Parameter.resolve) =
      Join.once model (ps[0]?.map fun p : Parameter => (p.bind e model).value)
        (q.map fun q : Plan => q.value (q.root.scope e.root model) e.root e.configuration) := by
  obtain ⟨hdelimiter, hlabels⟩ := Function.operands_join e model ps
  have hmap : ((q.map Parameter.subPath).map fun p : Parameter =>
        (p.bind e model).toElement.resolve) =
      (q.map fun q : Plan => q.value (q.root.scope e.root model) e.root e.configuration).map
        fun x => Operand.element x 0 := by
    cases q with
    | none => rfl
    | some q => exact congrArg some (Parameter.resolve_toElement_subPath e model q)
  rw [h, hmap] at hlabels
  have honce := Join.invoke_eq_once model hlabels
  rw [hdelimiter, Option.map_map] at honce
  exact honce

/-- `join(' / ', $.labels)` on `[10, [1], 30, 40]`, where the last label is missing; a path that has
no value is no matter where there is nothing to join. -/
theorem join_eq_once_labels :
    let n (i : Int) : Json := .ofInt i
    let labels : Json := .array [.string "ten", .array [.null, n 7], .string "x"]
    let e : Environment := ⟨.standard, .object [("labels", labels)]⟩
    let ps (name : String) : List Parameter :=
      [.literal "\" / \"", .subPath (Plan.ofPath ⟨.document, [.property name]⟩)]
    let join (name : String) (model : Json) :=
      Function.join.invoke "$" model ((Function.join.bind e model (ps name)).map Parameter.resolve)
    join "labels" (.array [n 10, .array [n 1], n 30, n 40]) = .ok (.string "ten / [7] / x") ∧
      join "names" (.array []) = .ok (.string "") ∧
      join "names" (n 1) = .error (.noMember "names" "$") := by
  intro n labels e ps join
  have honce (name : String) (model : Json) : join name model = _ :=
    join_eq_once e "$" model (ps name) (some (Plan.ofPath ⟨.document, [.property name]⟩)) rfl
  refine ⟨?_, ?_, ?_⟩
  · rw [honce]
    simp only [n, labels, e, ps]
    cbv
  · rw [honce]
    simp only [n, labels, e, ps]
    cbv
  · rw [honce]
    simp only [n, labels, e, ps]
    cbv

end JsonPath
