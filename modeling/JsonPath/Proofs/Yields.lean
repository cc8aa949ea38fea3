import JsonPath.Proofs.Reader

/-! Properties of everything that a reader can give, whatever the text. -/
namespace JsonPath.Reader

variable {α β : Type} {P : α → Prop} {Q : β → Prop}

/-- All that a reader gives has a property. -/
def Yields (r : Reader α) (P : α → Prop) : Prop :=
  ∀ (s : List Char) (a : α) (rest : List Char), r s = some (a, rest) → P a

theorem yields_true (r : Reader α) : r.Yields fun _ => True := fun _ _ _ _ => trivial

theorem yields_failure : (failure : Reader α).Yields P := by
  intro s a rest h
  cases h

theorem yields_pure {a : α} (h : P a) : (pure a : Reader α).Yields P := by
  intro s b rest hb
  cases hb
  exact h

theorem yields_satisfy (p : Char → Bool) : (satisfy p).Yields (p · = true) := by
  intro s c rest h
  cases s with
  | nil => cases h
  | cons d s =>
    simp only [satisfy] at h
    split at h
    next hd =>
      cases h
      exact hd
    next => cases h

theorem yields_many (p : Char → Bool) : (many p).Yields fun cs => ∀ c ∈ cs, p c = true := by
  intro s cs rest h c hc
  cases h
  have hall := List.all_takeWhile (p := p) (l := s)
  exact List.all_eq_true.mp hall c hc

namespace Yields

variable {r x : Reader α} {y : Reader β}

theorem bind {f : α → Reader β} (hx : x.Yields P) (hf : ∀ a, P a → (f a).Yields Q) :
    (x >>= f).Yields Q := by
  intro s b rest h
  rw [bind_apply, Option.bind_eq_some_iff] at h
  obtain ⟨⟨a, s'⟩, ha, hb⟩ := h
  exact hf a (hx s a s' ha) s' b rest hb

theorem map {f : α → β} (hx : x.Yields P) (hf : ∀ a, P a → Q (f a)) : (f <$> x).Yields Q := by
  intro s b rest h
  rw [map_apply, Option.map_eq_some_iff] at h
  obtain ⟨⟨a, s'⟩, ha, hb⟩ := h
  cases hb
  exact hf a (hx s a s' ha)

theorem seq {f : Reader (α → β)} {F : (α → β) → Prop} (hf : f.Yields F) (hx : x.Yields P)
    (h : ∀ g a, F g → P a → Q (g a)) : (f <*> x).Yields Q := by
  rw [seq_eq_bind_map]
  exact hf.bind fun g hg => hx.map fun a ha => h g a hg ha

theorem orElse {x' : Reader α} (hx : x.Yields P) (hx' : x'.Yields P) : (x <|> x').Yields P := by
  intro s a rest h
  rw [orElse_apply, Option.or_eq_some_iff] at h
  rcases h with h | ⟨_, h⟩
  · exact hx s a rest h
  · exact hx' s a rest h

theorem seqRight (hy : y.Yields Q) : (x *> y).Yields Q := by
  rw [seqRight_eq_bind]
  exact (yields_true x).bind fun _ _ => hy

theorem seqLeft (hx : x.Yields P) : (x <* y).Yields P := by
  rw [seqLeft_eq_bind]
  exact hx.bind fun a ha => (yields_true y).bind fun _ _ => yields_pure ha

theorem padded {p : Char → Bool} (hx : x.Yields P) : (padded p x).Yields P := hx.seqRight.seqLeft

theorem optional (hx : x.Yields P) : (optional x).Yields fun a? => ∀ a ∈ a?, P a := by
  refine (hx.map fun a ha b hb => ?_).orElse (yields_pure fun b hb => ?_)
  · cases hb
    exact ha
  · cases hb

theorem repeatUpTo (hr : r.Yields P) (n : Nat) (s : List Char) :
    ∀ a ∈ (repeatUpTo r n s).1, P a := by
  induction n generalizing s with
  | zero => intro a ha; cases ha
  | succ n ih =>
    rw [Reader.repeatUpTo]
    cases h : r s with
    | none => intro a ha; cases ha
    | some q => exact List.forall_mem_cons.mpr ⟨hr s q.1 q.2 h, ih q.2⟩

theorem repeated (hr : r.Yields P) : (repeated r).Yields fun as => ∀ a ∈ as, P a := by
  intro s as rest h
  have hr' := hr.repeatUpTo s.length s
  rw [Reader.repeated, Option.some.injEq] at h
  rwa [h] at hr'

theorem sepBy1 {separator : Reader Unit} (hr : r.Yields P) :
    (sepBy1 r separator).Yields fun as => ∀ a ∈ as, P a :=
  hr.bind fun _ ha => hr.seqRight.repeated.bind fun _ has =>
    yields_pure (List.forall_mem_cons.mpr ⟨ha, has⟩)

theorem sepBy {separator : Reader Unit} (hr : r.Yields P) :
    (sepBy r separator).Yields fun as => ∀ a ∈ as, P a :=
  hr.sepBy1.orElse (yields_pure fun a ha => by cases ha)

theorem sepEndBy {separator : Reader Unit} (hr : r.Yields P) :
    (sepEndBy r separator).Yields fun as => ∀ a ∈ as, P a :=
  hr.sepBy1.seqLeft.orElse (yields_pure fun a ha => by cases ha)

theorem all? (hr : r.Yields P) {s : List Char} {a : α} (h : r.all? s = some a) : P a := by
  unfold Reader.all? at h
  split at h
  next b hb =>
    cases h
    exact hr s a [] hb
  next => cases h

end Yields
end JsonPath.Reader
