import JsonPath.Binding.Lemmas
import JsonPath.Evaluation

/-! The value of a closure is the result of its plan's evaluation: the bound on the nesting of plans
that evaluation recurs on is never reached. -/
namespace JsonPath

theorem Token.height_le_maxHeight {ts : List Token} {t : Token} (h : t ∈ ts) :
    t.height ≤ Token.maxHeight ts := by
  induction ts with
  | nil => cases h
  | cons u us ih =>
    rw [Token.maxHeight]
    rcases List.mem_cons.1 h with rfl | h
    · exact Nat.le_max_left ..
    · exact Nat.le_trans (ih h) (Nat.le_max_right ..)

theorem Parameter.height_le_maxHeight {ps : List Parameter} {p : Parameter} (h : p ∈ ps) :
    p.height ≤ Parameter.maxHeight ps := by
  induction ps with
  | nil => cases h
  | cons q qs ih =>
    rw [Parameter.maxHeight]
    rcases List.mem_cons.1 h with rfl | h
    · exact Nat.le_max_left ..
    · exact Nat.le_trans (ih h) (Nat.le_max_right ..)

theorem Plan.maxHeight_chain_lt (p : Plan) : Token.maxHeight p.chain < p.height := by
  obtain ⟨root, ts⟩ := p
  simp [Plan.chain, Plan.height, Token.maxHeight, Token.height]

theorem Plan.height_pos (p : Plan) : 0 < p.height := Nat.zero_lt_of_lt p.maxHeight_chain_lt

theorem Closure.height_eq (c : Closure) : c.height = c.plan.height := by cases c; rfl

/-- Two resolvers give the same values to closures lower than `n`. -/
def Resolver.AgreeBelow (n : Nat) (r s : Resolver) : Prop := ∀ c : Closure, c.height < n → r c = s c

open Resolver

/-- The height of what a parameter is bound to. -/
def Parameter.bindingHeight (p : Parameter) : Nat := p.binding.elim 0 Binding.height

theorem Parameter.bindingHeight_le (p : Parameter) : p.bindingHeight ≤ p.height := by
  obtain ⟨source, _ | b, resolved⟩ := p
  · exact Nat.zero_le _
  · unfold Parameter.height
    exact Nat.le_max_right ..

theorem Parameter.source_height_le (p : Parameter) : p.source.height ≤ p.height := by
  obtain ⟨source, _ | b, resolved⟩ := p
  · unfold Parameter.height
    exact Nat.le_refl _
  · unfold Parameter.height
    exact Nat.le_max_left ..

theorem Source.height_of_bind? {e : Environment} {model : Json} {s : Source} {b : Binding}
    (h : s.bind? e model = some b) : b.height ≤ s.height := by
  cases s with
  | literal text => cases h; exact Nat.zero_le _
  | path p => cases h; exact Nat.le_refl _
  | none => cases h

theorem Binding.operand_congr {n : Nat} {r s : Resolver} (h : AgreeBelow n r s) {b : Binding}
    (hb : b.height < n) : b.operand r = b.operand s := by
  cases b <;> simp_all [Binding.operand, Binding.height, AgreeBelow]

theorem Parameter.operand_congr {n : Nat} {r s : Resolver} (h : AgreeBelow n r s) {p : Parameter}
    (hp : p.bindingHeight < n) : p.operand r = p.operand s := by
  unfold Parameter.operand
  unfold Parameter.bindingHeight at hp
  cases hb : p.binding with
  | none => rfl
  | some b => exact Binding.operand_congr h (by simpa [hb] using hp)

theorem Parameter.bindingHeight_bind_le (e : Environment) (model : Json) (p : Parameter) :
    (p.bind e model).bindingHeight ≤ p.height := by
  unfold Parameter.bind
  split
  · exact p.bindingHeight_le
  · split
    · exact Nat.le_trans (Source.height_of_bind? ‹_›) p.source_height_le
    · exact p.bindingHeight_le

theorem Parameter.bindingHeight_toElement (p : Parameter) :
    p.toElement.bindingHeight = p.bindingHeight := by
  obtain ⟨source, b, resolved⟩ := p
  rcases b with _ | b
  · rfl
  · cases b <;>
      simp [Parameter.toElement, Parameter.bindingHeight, Binding.toElement, Binding.height]

theorem Function.bindingHeight_le_of_mem_bind (f : Function) (e : Environment) (model : Json)
    (ps : List Parameter) :
    ∀ p ∈ f.bind e model ps, p.bindingHeight ≤ Parameter.maxHeight ps := by
  intro q hq
  obtain ⟨i, p, hp, rfl⟩ := exists_of_mem_bind hq
  have hbound := Nat.le_trans (Parameter.bindingHeight_bind_le e model p)
    (Parameter.height_le_maxHeight hp)
  unfold bindAt
  split
  · rw [Parameter.bindingHeight_toElement]
    exact hbound
  · exact hbound

theorem Token.step_congr {n : Nat} {r s : Resolver} (h : AgreeBelow n r s) (e : Environment)
    (c : Cursor) {t : Token} (ht : t.height < n) : t.step r e c = t.step s e c := by
  cases t with
  | call name bare ps =>
    have operands (f : Function) :
        (f.bind e c.value ps).map (·.operand r) = (f.bind e c.value ps).map (·.operand s) := by
      refine List.map_congr_left fun p hp => Parameter.operand_congr h ?_
      have := Function.bindingHeight_le_of_mem_bind f e c.value ps p hp
      simp only [Token.height] at ht
      omega
    simp only [Token.step, Token.invoke, operands]
  | _ => rfl

theorem Token.walk_congr {n : Nat} {r s : Resolver} (h : AgreeBelow n r s) (e : Environment)
    (c : Cursor) {ts : List Token} (ht : Token.maxHeight ts < n) :
    Token.walk r e c ts = Token.walk s e c ts := by
  induction ts generalizing c with
  | nil => rfl
  | cons t ts ih =>
    rw [Token.maxHeight] at ht
    simp only [Token.walk, Token.step_congr h e c (t := t) (by omega)]
    split
    · rfl
    · rw [ih _ (by omega)]

theorem Plan.evaluateWith_congr {r s : Resolver} (p : Plan) (h : AgreeBelow p.height r s)
    (document : Json) (e : Environment) :
    p.evaluateWith r document e = p.evaluateWith s document e := by
  simp only [Plan.evaluateWith, Context.follow, Token.walk_congr h _ _ p.maxHeight_chain_lt]

/-- Any two sufficient bounds give the same value. -/
theorem Closure.valueWithin_congr {m n : Nat} {c : Closure} (hm : c.height ≤ m)
    (hn : c.height ≤ n) : Closure.valueWithin m c = Closure.valueWithin n c := by
  have hp : 0 < c.height := c.height_eq ▸ c.plan.height_pos
  induction m generalizing n c with
  | zero => omega
  | succ m ih =>
    cases n with
    | zero => omega
    | succ n =>
      simp only [Closure.valueWithin]
      rw [Plan.evaluateWith_congr]
      intro d hd
      have := c.height_eq
      exact ih (by omega) (by omega) (d.height_eq ▸ d.plan.height_pos)

theorem Closure.value_eq (c : Closure) :
    c.value = (c.plan.evaluate c.document c.root c.configuration).bind Context.result := by
  obtain ⟨n, hn⟩ := Nat.exists_eq_add_one.2 (c.height_eq ▸ c.plan.height_pos)
  rw [Closure.value, hn, Closure.valueWithin, Plan.evaluate,
    Plan.evaluateWith_congr (s := Closure.value)]
  · rfl
  · intro d hd
    have := c.height_eq
    exact Closure.valueWithin_congr (by omega) (Nat.le_refl _)

end JsonPath
