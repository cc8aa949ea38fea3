import JsonPath.Proofs.Arguments

/-! The elements of one type that a list of arguments gives. The arguments are gone through in order,
each by itself, and what they give is of the type already: coerced again, it stays as it is. -/
namespace JsonPath

section Traversal

variable {α β ε : Type} {f : α → Except ε β}

theorem mapM_eq_ok_iff {as : List α} {bs : List β} :
    as.mapM f = .ok bs ↔ as.map f = bs.map .ok := by
  induction as generalizing bs with
  | nil => cases bs <;> simp [pure, Except.pure]
  | cons a as ih =>
    rw [List.mapM_cons]
    cases ha : f a with
    | error err => cases bs <;> simp [ha, bind, Except.bind]
    | ok b =>
      cases has : as.mapM f with
      | error err => cases bs <;> simp [ha, has, ← ih, bind, Except.bind]
      | ok cs => cases bs <;> simp [ha, has, ← ih, bind, Except.bind, pure, Except.pure]

/-- A traversal ends at the first element that fails, and with its error. -/
theorem mapM_eq_error_iff {as : List α} {err : ε} :
    as.mapM f = .error err ↔ ∃ before a after, as = before ++ a :: after ∧
      (∀ b ∈ before, ∃ c, f b = .ok c) ∧ f a = .error err := by
  constructor
  · intro h
    induction as with
    | nil => cases h
    | cons a as ih =>
      rw [List.mapM_cons] at h
      cases ha : f a with
      | error err' =>
        rw [ha] at h
        cases h
        exact ⟨[], a, as, rfl, by simp, ha⟩
      | ok c =>
        have hrest : as.mapM f = .error err := by
          cases has : as.mapM f with
          | error err' => simpa [ha, has, bind, Except.bind] using h
          | ok cs => simp [ha, has, bind, Except.bind, pure, Except.pure] at h
        obtain ⟨before, b, after, has, hbefore, hb⟩ := ih hrest
        have hok : ∀ x ∈ a :: before, ∃ c, f x = .ok c :=
          List.forall_mem_cons.mpr ⟨⟨c, ha⟩, hbefore⟩
        exact ⟨a :: before, b, after, by rw [has, List.cons_append], hok, hb⟩
  · intro ⟨before, a, after, has, hbefore, ha⟩
    subst has
    induction before with
    | nil => simp [ha, bind, Except.bind]
    | cons b before ih =>
      obtain ⟨⟨c, hb⟩, hrest⟩ := List.forall_mem_cons.mp hbefore
      rw [List.cons_append, List.mapM_cons, hb, ih hrest]
      rfl

end Traversal

/-- The most elements that a value can give: those of an array, or itself. -/
def Json.breadth : Json → Nat
  | .array es => es.length
  | _ => 1

namespace ElementType

variable {t : ElementType} {v w : Json}

theorem isNull_of_accepts (h : t.accepts v = true) : v.isNull = false := by
  cases v with
  | null => cases t <;> cases h
  | _ => rfl

theorem coerceElement?_of_accepts (h : t.accepts v = true) : t.coerceElement? v = some v := by
  unfold coerceElement?
  rw [isNull_of_accepts h]
  simp [h]

/-- Only the type of strings takes what it does not accept, and makes strings of it. -/
theorem accepts_of_coerceElement? (h : t.coerceElement? v = some w) : t.accepts w = true := by
  unfold coerceElement? at h
  split_ifs at h with hnull haccepts hstring
  · cases h
    exact haccepts
  · cases h
    subst hstring
    rfl

theorem accepts_of_mem_coerce (h : w ∈ t.coerce v) : t.accepts w = true := by
  unfold coerce at h
  split at h
  · obtain ⟨e, _, he⟩ := List.mem_filterMap.mp h
    exact accepts_of_coerceElement? he
  · split_ifs at h with haccepts
    · rwa [List.mem_singleton.mp h]
    · cases h

/-- Elements of the type stay, in their order. -/
theorem coerce_of_accepts {vs : List Json} (h : ∀ v ∈ vs, t.accepts v = true) :
    t.coerce (.array vs) = vs := by
  show vs.filterMap t.coerceElement? = vs
  have hsome : vs.filterMap t.coerceElement? = vs.filterMap some :=
    List.filterMap_congr fun v hv => coerceElement?_of_accepts (h v hv)
  rw [hsome, List.filterMap_some]

theorem length_coerce_le (t : ElementType) (v : Json) : (t.coerce v).length ≤ v.breadth := by
  have hscalar : (if t.accepts v = true then [v] else []).length ≤ 1 := by
    split_ifs <;> simp
  cases v with
  | array es => apply List.length_filterMap_le
  | _ => exact hscalar

theorem length_flatMap_coerce_le (t : ElementType) (vs : List Json) :
    (vs.flatMap t.coerce).length ≤ (vs.map Json.breadth).sum := by
  induction vs with
  | nil => exact Nat.le_refl 0
  | cons v vs ih =>
    have hv := length_coerce_le t v
    rw [List.flatMap_cons, List.length_append, List.map_cons, List.sum_cons]
    omega

/-- Values that are consumed in turn leave what was collected before in its place. -/
theorem foldl_consume (t : ElementType) (vs collected : List Json) :
    vs.foldl t.consume collected = collected ++ vs.flatMap t.coerce := by
  induction vs generalizing collected with
  | nil => rw [List.flatMap_nil, List.append_nil, List.foldl_nil]
  | cons v vs ih =>
    rw [List.foldl_cons, ih, consume, List.flatMap_cons, List.append_assoc]

end ElementType

namespace Operand

theorem mapM_value_resolve (ps : List Parameter) :
    (ps.map Parameter.resolve).mapM Operand.value = ps.mapM Parameter.value := List.mapM_map

theorem sequence_resolve_eq_ok {t : ElementType} {ps : List Parameter} {vs : List Json}
    (h : ps.map Parameter.value = vs.map .ok) :
    sequence t (ps.map Parameter.resolve) = .ok (vs.flatMap t.coerce) := by
  have hvalues : ps.mapM Parameter.value = .ok vs := mapM_eq_ok_iff.mpr h
  unfold sequence
  rw [mapM_value_resolve, hvalues]
  rfl

/-- An argument with a value gives its elements in front of those of the arguments behind it. -/
theorem sequence_cons {t : ElementType} {o : Operand} {v : Json} (h : o.value = .ok v)
    (os : List Operand) : sequence t (o :: os) = (sequence t os).map (t.coerce v ++ ·) := by
  unfold sequence
  rw [List.mapM_cons, h]
  cases os.mapM Operand.value <;> rfl

/-- What one argument gives by itself. -/
theorem sequence_singleton (t : ElementType) (p : Parameter) :
    sequence t [p.resolve] = p.value.map t.coerce := by
  have hvalue : p.resolve.value = p.value := rfl
  unfold sequence
  rw [List.mapM_cons, List.mapM_nil, hvalue]
  cases p.value with
  | error err => rfl
  | ok v => exact congrArg Except.ok (List.append_nil _)

theorem sequence_resolve_eq_error_iff {t : ElementType} {ps : List Parameter} {err : EvalError} :
    sequence t (ps.map Parameter.resolve) = .error err ↔ ps.mapM Parameter.value = .error err := by
  unfold sequence
  rw [mapM_value_resolve]
  cases ps.mapM Parameter.value <;> simp [bind, Except.bind, pure, Except.pure]

end Operand

theorem Parameter.exists_values {ps : List Parameter} (h : ∀ p ∈ ps, ∃ v, p.value = .ok v) :
    ∃ vs : List Json, ps.map Parameter.value = vs.map .ok := by
  induction ps with
  | nil => exact ⟨[], rfl⟩
  | cons p ps ih =>
    obtain ⟨⟨v, hv⟩, hrest⟩ := List.forall_mem_cons.mp h
    obtain ⟨vs, hvs⟩ := ih hrest
    exact ⟨v :: vs, by rw [List.map_cons, List.map_cons, hv, hvs]⟩

/-- The elements of a type that a list of parameters gives. The first parameter that has no value
makes the whole fail with its error. If all have values, they give what each gives by itself, one
after the other: elements of the type, no more than the values have, which stay as they are when they
are coerced again as one array. What was collected before stays in front. -/
theorem sequence_coerces (t : ElementType) (ps : List Parameter) :
    let sequence (ps : List Parameter) := Operand.sequence t (ps.map Parameter.resolve)
    (∀ err, sequence ps = .error err ↔ ∃ before p after, ps = before ++ p :: after ∧
      (∀ q ∈ before, ∃ v, q.value = .ok v) ∧ p.value = .error err) ∧
    ((∀ p ∈ ps, ∃ v, p.value = .ok v) → ∃ (vs : List Json) (parts : List (List Json)),
      ps.map Parameter.value = vs.map .ok ∧ ps.map (fun p => sequence [p]) = parts.map .ok ∧
      sequence ps = .ok parts.flatten ∧ vs.foldl t.consume [] = parts.flatten ∧
      (∀ w ∈ parts.flatten, t.accepts w = true ∧ w ≠ .null) ∧
      parts.flatten.length ≤ (vs.map Json.breadth).sum ∧
      t.consume [] (.array parts.flatten) = parts.flatten) ∧
    ∀ vs collected : List Json,
      vs.foldl t.consume collected = collected ++ vs.foldl t.consume [] := by
  intro sequence
  refine ⟨?_, ?_, ?_⟩
  · intro err
    exact Operand.sequence_resolve_eq_error_iff.trans mapM_eq_error_iff
  · intro hall
    obtain ⟨vs, hvs⟩ := Parameter.exists_values hall
    have hflat : (vs.map t.coerce).flatten = vs.flatMap t.coerce := rfl
    have haccepts : ∀ w ∈ vs.flatMap t.coerce, t.accepts w = true := by
      intro w hw
      obtain ⟨v, _, hv⟩ := List.mem_flatMap.mp hw
      exact ElementType.accepts_of_mem_coerce hv
    have hsingles : ps.map (fun p => sequence [p]) = (vs.map t.coerce).map .ok := by
      calc
        ps.map (fun p => sequence [p]) = (ps.map Parameter.value).map (Except.map t.coerce) := by
          rw [List.map_map]
          exact List.map_congr_left fun p _ => Operand.sequence_singleton t p
        _ = (vs.map .ok).map (Except.map t.coerce) := by rw [hvs]
        _ = (vs.map t.coerce).map .ok := by
          rw [List.map_map, List.map_map]
          rfl
    refine ⟨vs, vs.map t.coerce, hvs, hsingles, ?_⟩
    rw [hflat]
    refine ⟨Operand.sequence_resolve_eq_ok hvs, ?_, ?_, t.length_flatMap_coerce_le vs, ?_⟩
    · rw [t.foldl_consume, List.nil_append]
    · intro w hw
      have hw := haccepts w hw
      constructor
      · exact hw
      · intro hnull
        have hsome : w.isNull = false := ElementType.isNull_of_accepts hw
        rw [hnull] at hsome
        cases hsome
    · rw [ElementType.consume, List.nil_append, ElementType.coerce_of_accepts haccepts]
  · intro vs collected
    rw [t.foldl_consume, t.foldl_consume vs [], List.nil_append]

/-- The strings that `[1, null, "x"]`, `3` and `$.b` give, where `$.b` is `[null, [2]]`; with `$.c` and
a malformed literal behind them it is the missing `c` that is reported. -/
theorem sequence_coerces_strings :
    let n (i : Int) : Json := .ofInt i
    let e : Environment := ⟨.standard, .object [("b", .array [.null, .array [n 2]])]⟩
    let literal (text : String) : Parameter := (Parameter.literal text).bind e .null
    let argument (name : String) : Parameter :=
      (Parameter.subPath (Plan.ofPath ⟨.document, [.property name]⟩)).bind e .null
    let ps : List Parameter := [literal "[1, null, \"x\"]", literal "3", argument "b"]
    let sequence (ps : List Parameter) := Operand.sequence .string (ps.map Parameter.resolve)
    let r : List Json := [.string "1", .string "x", .string "[2]"]
    (∀ p ∈ ps, ∃ v, p.value = .ok v) ∧ sequence ps = .ok r ∧
      ElementType.string.consume [] (.array r) = r ∧
      sequence (ps ++ [argument "c", literal "]"]) = .error (.noMember "c" "$") := by
  intro n e literal argument ps sequence r
  have hall : ∀ p ∈ ps, ∃ v, p.value = .ok v := by
    have hfirst : (literal "[1, null, \"x\"]").value = .ok (.array [n 1, .null, .string "x"]) := by
      cbv
    have hsecond : (literal "3").value = .ok (n 3) := by cbv
    have hthird : (argument "b").value = .ok (.array [.null, .array [n 2]]) := by cbv
    simp only [ps, List.forall_mem_cons, List.not_mem_nil, false_imp_iff, implies_true, and_true]
    exact ⟨⟨_, hfirst⟩, ⟨_, hsecond⟩, ⟨_, hthird⟩⟩
  have hsequence : sequence ps = .ok r := by
    simp only [sequence, ps, literal, argument, e, n, r]
    cbv
  have hmissing : (argument "c").value = .error (.noMember "c" "$") := by cbv
  obtain ⟨vs, parts, _, _, hparts, _, _, _, hagain⟩ := (sequence_coerces .string ps).2.1 hall
  have hr : parts.flatten = r := Except.ok.inj (hparts.symm.trans hsequence)
  have herror := ((sequence_coerces .string (ps ++ [argument "c", literal "]"])).1 _).mpr
    ⟨ps, argument "c", [literal "]"], rfl, hall, hmissing⟩
  rw [hr] at hagain
  exact ⟨hall, hsequence, hagain, herror⟩

end JsonPath
