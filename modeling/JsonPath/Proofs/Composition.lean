import JsonPath.Plan.Compile
import JsonPath.Proofs.Chain

/-! The value of a path in two parts: that of the second part in the value of the first. Texts and
parents of hits never influence a value, only the messages of errors. -/
namespace JsonPath

/-- Outcomes with related values, or with errors of the same kind. -/
inductive Alike {α β : Type} (R : α → β → Prop) :
    Except EvalError α → Except EvalError β → Prop where
  | ok {a : α} {b : β} (h : R a b) : Alike R (.ok a) (.ok b)
  | error {err err' : EvalError} (h : err.kind = err'.kind) : Alike R (.error err) (.error err')

namespace Alike

variable {α β γ δ : Type} {R : α → β → Prop} {S : γ → δ → Prop}

theorem refl (x : Except EvalError α) : Alike Eq x x := by
  cases x with
  | error err => exact .error rfl
  | ok a => exact .ok rfl

theorem bind {x : Except EvalError α} {y : Except EvalError β} {f : α → Except EvalError γ}
    {g : β → Except EvalError δ} (h : Alike R x y) (hfg : ∀ a b, R a b → Alike S (f a) (g b)) :
    Alike S (x.bind f) (y.bind g) := by
  cases h with
  | ok h => exact hfg _ _ h
  | error h => exact .error h

theorem map {x : Except EvalError α} {y : Except EvalError β} {f : α → γ} {g : β → δ}
    (h : Alike R x y) (hfg : ∀ a b, R a b → S (f a) (g b)) : Alike S (x.map f) (y.map g) := by
  cases h with
  | ok h => exact .ok (hfg _ _ h)
  | error h => exact .error h

theorem eq_ok_iff {x y : Except EvalError α} (h : Alike Eq x y) (a : α) :
    x = .ok a ↔ y = .ok a := by
  cases h with
  | ok h => rw [h]
  | error h => simp

theorem exists_error {x : Except EvalError α} {y : Except EvalError β} (h : Alike R x y)
    {err : EvalError} (hx : x = .error err) : ∃ err', y = .error err' ∧ err.kind = err'.kind := by
  cases h with
  | ok _ => cases hx
  | error h => cases hx; exact ⟨_, rfl, h⟩

end Alike

/-- The path of a value shows in messages only. -/
theorem Function.invoke_alike (f : Function) (path path' : String) (model : Json)
    (os : List Operand) : Alike Eq (f.invoke path model os) (f.invoke path' model os) := by
  cases f with
  | append =>
    cases model with
    | array es => exact .refl _
    | _ => exact .error rfl
  | _ => exact .refl _

namespace Token

variable {r : Resolver} {e : Environment} {c d : Cursor}

theorem invoke_alike (name path path' : String) (ps : List Parameter) (model : Json) :
    Alike Eq (invoke r e name path ps model) (invoke r e name path' ps model) := by
  unfold invoke
  refine (Alike.refl (e.configuration.registry.lookup name)).bind ?_
  rintro f _ rfl
  dsimp only
  split
  · exact .refl _
  · exact f.invoke_alike ..

/-- Places with the same value. -/
def SameValue (c d : Cursor) : Prop := c.value = d.value

theorem step_alike (h : SameValue c d) (t : Token) :
    Alike SameValue (t.step r e c) (t.step r e d) := by
  obtain ⟨path, parent, value⟩ := c
  obtain ⟨path', parent', value'⟩ := d
  cases h
  cases t with
  | root symbol => exact .ok rfl
  | property name =>
    cases value with
    | object ms =>
      simp only [step]
      split
      · exact .ok rfl
      · exact .error rfl
    | _ => exact .error rfl
  | index i =>
    cases value with
    | array es =>
      simp only [step]
      split
      · exact .ok rfl
      · exact .error rfl
    | _ => exact .error rfl
  | call name bare ps =>
    refine (invoke_alike name path path' ps value).bind ?_
    rintro v _ rfl
    exact .ok rfl

theorem reach_alike (h : SameValue c d) (ts : List Token) :
    Alike SameValue (reach r e c ts) (reach r e d ts) := by
  induction ts generalizing c d with
  | nil => exact .ok h
  | cons t ts ih =>
    rw [reach_cons, reach_cons]
    exact (step_alike h t).bind fun a b hab => ih hab

end Token

namespace Plan

variable {document root : Json} {c : Configuration}

theorem chain_ofPath_append (symbol : Root) (s t : List Segment) :
    (ofPath ⟨symbol, s ++ t⟩).chain = (ofPath ⟨symbol, s⟩).chain ++ Token.ofSegments t := by
  simp [chain_ofPath, Token.ofSegments_eq]

theorem reach_ofPath_append (symbol : Root) (s t : List Segment) :
    (ofPath ⟨symbol, s ++ t⟩).reach document root c =
      ((ofPath ⟨symbol, s⟩).reach document root c).bind fun a =>
        Token.reach Closure.value ⟨c, root⟩ a (Token.ofSegments t) := by
  unfold reach
  rw [chain_ofPath_append, Token.reach_append]

/-- Segments behind a place do to its value what a path from that value does. -/
theorem value_alike_of_reach (symbol : Root) (t : List Segment) (a : Cursor) :
    Alike Eq ((Token.reach Closure.value ⟨c, root⟩ a (Token.ofSegments t)).map (·.value))
      ((ofPath ⟨symbol, t⟩).value a.value root c) := by
  have hsame : Token.SameValue a ⟨symbol.symbol.toString, .root, a.value⟩ := rfl
  have h := Token.reach_alike (r := Closure.value) (e := ⟨c, root⟩) hsame (Token.ofSegments t)
  rw [value_eq, reach, chain_ofPath]
  exact h.map fun _ _ hv => hv

theorem value_append_cons (symbol : Root) (before after : List Segment) (s : Segment) :
    (ofPath ⟨symbol, before ++ s :: after⟩).value document root c =
      ((ofPath ⟨symbol, before⟩).reach document root c).bind fun a =>
        ((Token.ofSegment s).step Closure.value ⟨c, root⟩ a).bind fun b =>
          (Token.reach Closure.value ⟨c, root⟩ b (Token.ofSegments after)).map (·.value) := by
  rw [value_eq, reach_ofPath_append]
  cases (ofPath ⟨symbol, before⟩).reach document root c with
  | error err => rfl
  | ok a =>
    simp only [Except.bind, Token.ofSegments, Token.reach_cons]
    cases (Token.ofSegment s).step Closure.value ⟨c, root⟩ a <;> rfl

/-- A segment can stand in for another that it agrees with wherever that one leads on. -/
theorem value_replace {s s' : Segment} {v : Json} (symbol : Root) (before after : List Segment)
    (h : ∀ a b, (Token.ofSegment s).step Closure.value ⟨c, root⟩ a = .ok b →
      ∃ b', (Token.ofSegment s').step Closure.value ⟨c, root⟩ a = .ok b' ∧ Token.SameValue b b')
    (hv : (ofPath ⟨symbol, before ++ s :: after⟩).value document root c = .ok v) :
    (ofPath ⟨symbol, before ++ s' :: after⟩).value document root c = .ok v := by
  rw [value_append_cons] at hv ⊢
  cases hbefore : (ofPath ⟨symbol, before⟩).reach document root c with
  | error err => rw [hbefore] at hv; cases hv
  | ok a =>
    cases hs : (Token.ofSegment s).step Closure.value ⟨c, root⟩ a with
    | error err => simp only [hbefore, hs, Except.bind] at hv; cases hv
    | ok b =>
      obtain ⟨b', hs', hsame⟩ := h a b hs
      simp only [hbefore, hs, Except.bind] at hv
      simp only [hs', Except.bind]
      -- The two places may differ in path and parent, on which no value depends.
      have hreach := Token.reach_alike (r := Closure.value) (e := ⟨c, root⟩) hsame
        (Token.ofSegments after)
      have halike : Alike Eq
          ((Token.reach Closure.value ⟨c, root⟩ b (Token.ofSegments after)).map (·.value))
          ((Token.reach Closure.value ⟨c, root⟩ b' (Token.ofSegments after)).map (·.value)) :=
        hreach.map fun _ _ hvalue => hvalue
      exact (halike.eq_ok_iff v).mp hv

theorem exists_place_of_value {p : Plan} {v : Json} (h : p.value document root c = .ok v) :
    ∃ a, p.reach document root c = .ok a ∧ a.value = v := by
  rw [value_eq] at h
  cases hr : p.reach document root c with
  | error err => rw [hr] at h; cases h
  | ok a =>
    rw [hr] at h
    exact ⟨a, rfl, Except.ok.inj h⟩

theorem value_concat (symbol : Root) (before : List Segment) (s : Segment) {a : Cursor}
    (h : (ofPath ⟨symbol, before⟩).reach document root c = .ok a) :
    (ofPath ⟨symbol, before ++ [s]⟩).value document root c =
      ((Token.ofSegment s).step Closure.value ⟨c, root⟩ a).map (·.value) := by
  rw [value_append_cons, h]
  rfl

/-- A path whose first part fails, fails with the same error. One whose first part has a value has
the value of its second part in that value, or fails where the second part does, in the same way. -/
theorem value_append (symbol : Root) (s t : List Segment) (document root : Json)
    (c : Configuration) :
    (∀ err, (ofPath ⟨symbol, s⟩).evaluate document root c = .error err →
      (ofPath ⟨symbol, s ++ t⟩).evaluate document root c = .error err) ∧
    ∀ v, (ofPath ⟨symbol, s⟩).value document root c = .ok v →
      (∀ w, (ofPath ⟨symbol, s ++ t⟩).value document root c = .ok w ↔
        (ofPath ⟨.current, t⟩).value v root c = .ok w) ∧
      ∀ err, (ofPath ⟨symbol, s ++ t⟩).value document root c = .error err →
        ∃ err', (ofPath ⟨.current, t⟩).value v root c = .error err' ∧ err.kind = err'.kind := by
  constructor
  · intro err h
    rw [evaluate_error_iff] at h ⊢
    rw [reach_ofPath_append, h]
    rfl
  · intro v hv
    have halike : Alike Eq ((ofPath ⟨symbol, s ++ t⟩).value document root c)
        ((ofPath ⟨.current, t⟩).value v root c) := by
      rw [value_eq] at hv
      rw [value_eq, reach_ofPath_append]
      cases hs : (ofPath ⟨symbol, s⟩).reach document root c with
      | error err => rw [hs] at hv; cases hv
      | ok a =>
        rw [hs] at hv
        cases hv
        exact value_alike_of_reach .current t a
    exact ⟨halike.eq_ok_iff, fun err => halike.exists_error⟩

/-- `$.a.length()` and `$.a.b` in two parts, the first also where there is no `a`. -/
theorem value_append_length :
    let s : List Segment := [.property "a"]
    let v : Json := .array [.null, .bool true]
    let d : Json := .object [("a", v)]
    let n : Json := .bool true
    (ofPath ⟨.document, s⟩).value d d .standard = .ok v ∧
      (ofPath ⟨.document, s ++ [.call "length" []]⟩).value d d .standard = .ok (.ofInt 2) ∧
      (∃ err, (ofPath ⟨.current, [.property "b"]⟩).value v d .standard = .error err ∧
        ErrorKind.pathNotFound = err.kind) ∧
      (ofPath ⟨.document, s ++ [.call "length" []]⟩).evaluate n n .standard =
        .error (.notAnObject "a" "$" "boolean") := by
  intro s v d n
  have hd : (ofPath ⟨.document, s⟩).value d d .standard = .ok v := by cbv
  have hn : (ofPath ⟨.document, s⟩).evaluate n n .standard =
      .error (.notAnObject "a" "$" "boolean") := by cbv
  have hlength : (ofPath ⟨.current, [.call "length" []]⟩).value v d .standard =
      .ok (.ofInt 2) := by cbv
  have hb : (ofPath ⟨.document, s ++ [.property "b"]⟩).value d d .standard =
      .error (.notAnObject "b" "$['a']" "array") := by cbv
  exact ⟨hd, (((value_append .document s _ d d .standard).2 v hd).1 _).mpr hlength,
    ((value_append .document s _ d d .standard).2 v hd).2 _ hb,
    (value_append .document s _ n n .standard).1 _ hn⟩

end Plan
end JsonPath
