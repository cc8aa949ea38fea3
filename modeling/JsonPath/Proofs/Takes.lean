import JsonPath.Proofs.Grammar
import JsonPath.Proofs.Reader

/-! Readers that take what a phrase writes. A property of the text that is left may be carried
along, if no part of a path can take it away. -/
namespace JsonPath

open JsonPath.Path (Mark Enclosed Separated Listed Items)

/-- A property of texts that holds on behind a plain character and behind an escape. -/
structure Kept (I : List Char → Prop) : Prop where
  skip : ∀ {c : Char} {s : List Char}, c ≠ '\\' → I (c :: s) → I s
  escape : ∀ {t s : List Char} {x : Char}, Path.EscapeText t x → I (t ++ s) → I s

theorem kept_true : Kept fun _ => True := ⟨fun _ _ => trivial, fun _ _ => trivial⟩

theorem Kept.append {I : List Char → Prop} (hI : Kept I) {t s : List Char} (ht : '\\' ∉ t)
    (h : I (t ++ s)) : I s := by
  induction t with
  | nil => exact h
  | cons c t ih =>
    have hc : c ≠ '\\' := (List.ne_of_not_mem_cons ht).symm
    exact ih (List.not_mem_of_not_mem_cons ht) (hI.skip hc h)

namespace Reader

variable {α β : Type} {I : List Char → Prop} {G : Phrase α} {H : Phrase β}

/-- What a reader takes writes the value that it gives. -/
def Takes (I : List Char → Prop) (r : Reader α) (G : Phrase α) : Prop :=
  ∀ (s : List Char) (a : α) (rest : List Char), I s → r s = some (a, rest) →
    I rest ∧ ∃ t, s = t ++ rest ∧ G t a

theorem takes_failure : (failure : Reader α).Takes I G := by
  intro s a rest _ h
  cases h

theorem takes_pure {a : α} (h : G [] a) : (pure a : Reader α).Takes I G := by
  intro s b rest hs hb
  cases hb
  exact ⟨hs, [], rfl, h⟩

theorem takes_char (hI : Kept I) {c : Char} (hc : c ≠ '\\') :
    (char c).Takes I fun t _ => t = [c] := by
  intro s a rest hs h
  cases s with
  | nil => cases h
  | cons d s =>
    by_cases hd : d = c
    · subst hd
      rw [char_self] at h
      cases h
      exact ⟨hI.skip hc hs, [d], rfl, rfl⟩
    · rw [char_ne hd] at h
      cases h

theorem takes_word (hI : Kept I) {cs : List Char} (hcs : '\\' ∉ cs) :
    (word cs).Takes I fun t _ => t = cs := by
  induction cs with
  | nil =>
    intro s a rest hs h
    cases h
    exact ⟨hs, [], rfl, rfl⟩
  | cons c cs ih =>
    have hc : c ≠ '\\' := (List.ne_of_not_mem_cons hcs).symm
    intro s a rest hs h
    cases s with
    | nil => cases h
    | cons d s =>
      by_cases hd : d = c
      · subst hd
        rw [word, if_pos rfl] at h
        obtain ⟨hrest, t, rfl, rfl⟩ :=
          ih (List.not_mem_of_not_mem_cons hcs) s a rest (hI.skip hc hs) h
        exact ⟨hrest, d :: t, rfl, rfl⟩
      · rw [word_of_ne hd] at h
        cases h

theorem takes_satisfy (hI : Kept I) {p : Char → Bool} (hp : p '\\' = false) :
    (satisfy p).Takes I fun t c => t = [c] ∧ p c = true := by
  intro s c rest hs h
  cases s with
  | nil => cases h
  | cons d s =>
    rw [satisfy] at h
    split at h
    next hd =>
      cases h
      have hne : c ≠ '\\' := by
        rintro rfl
        rw [hp] at hd
        cases hd
      exact ⟨hI.skip hne hs, [c], rfl, rfl, hd⟩
    next => cases h

theorem takes_many (hI : Kept I) {p : Char → Bool} (hp : p '\\' = false) :
    (many p).Takes I fun t cs => t = cs ∧ ∀ c ∈ cs, p c = true := by
  intro s cs rest hs h
  cases h
  have hall : ∀ c ∈ s.takeWhile p, p c = true := List.all_eq_true.mp List.all_takeWhile
  have hsplit : s.takeWhile p ++ s.dropWhile p = s := List.takeWhile_append_dropWhile
  have hslash : '\\' ∉ s.takeWhile p := by
    intro hmem
    have := hall _ hmem
    rw [hp] at this
    cases this
  refine ⟨hI.append hslash (by rwa [hsplit]), s.takeWhile p, hsplit.symm, rfl, hall⟩

namespace Takes

variable {x r : Reader α} {y : Reader β}

theorem mono {K : Phrase α} (hx : x.Takes I G) (hK : ∀ t a, G t a → K t a) : x.Takes I K := by
  intro s a rest hs h
  obtain ⟨hrest, t, ht, hG⟩ := hx s a rest hs h
  exact ⟨hrest, t, ht, hK t a hG⟩

/-- What comes second completes the text of the whole. -/
theorem bind {f : α → Reader β} (hx : x.Takes I G)
    (hf : ∀ t a, G t a → (f a).Takes I fun u b => H (t ++ u) b) : (x >>= f).Takes I H := by
  intro s b rest hs h
  rw [bind_apply, Option.bind_eq_some_iff] at h
  obtain ⟨⟨a, s'⟩, ha, hb⟩ := h
  obtain ⟨hs', t, rfl, hG⟩ := hx s a s' hs ha
  obtain ⟨hrest, u, rfl, hH⟩ := hf t a hG s' b rest hs' hb
  exact ⟨hrest, t ++ u, (List.append_assoc ..).symm, hH⟩

theorem map {f : α → β} (hx : x.Takes I G) (hf : ∀ t a, G t a → H t (f a)) :
    (f <$> x).Takes I H := by
  intro s b rest hs h
  rw [map_apply, Option.map_eq_some_iff] at h
  obtain ⟨⟨a, s'⟩, ha, hb⟩ := h
  cases hb
  obtain ⟨hrest, t, ht, hG⟩ := hx s a _ hs ha
  exact ⟨hrest, t, ht, hf t a hG⟩

theorem orElse {x' : Reader α} (hx : x.Takes I G) (hx' : x'.Takes I G) :
    (x <|> x').Takes I G := by
  intro s a rest hs h
  rw [orElse_apply, Option.or_eq_some_iff] at h
  rcases h with h | ⟨_, h⟩
  · exact hx s a rest hs h
  · exact hx' s a rest hs h

theorem seqRight (hx : x.Takes I G) (hy : ∀ t a, G t a → y.Takes I fun u b => H (t ++ u) b) :
    (x *> y).Takes I H := by
  rw [seqRight_eq_bind]
  exact hx.bind hy

theorem seqLeft {K : Phrase α} (hx : x.Takes I G)
    (hy : ∀ t a, G t a → y.Takes I fun u _ => K (t ++ u) a) : (x <* y).Takes I K := by
  intro s a rest hs h
  rw [seqLeft_apply, Option.bind_eq_some_iff] at h
  obtain ⟨⟨a', s'⟩, ha, h⟩ := h
  obtain ⟨⟨b, s''⟩, hb, heq⟩ := Option.map_eq_some_iff.mp h
  cases heq
  obtain ⟨hs', t, rfl, hG⟩ := hx s a' s' hs ha
  obtain ⟨hrest, u, rfl, hK⟩ := hy t a' hG s' b s'' hs' hb
  exact ⟨hrest, t ++ u, (List.append_assoc ..).symm, hK⟩

/-- What is read between two others makes the whole with their texts around its own. -/
theorem between {γ : Type} {z : Reader γ} {J : Phrase γ} {K : Phrase α} (hy : y.Takes I H)
    (hx : x.Takes I G) (hz : z.Takes I J)
    (hK : ∀ {t u v : List Char} {a : α} {b : β} {c : γ}, H t b → G u a → J v c →
      K (t ++ (u ++ v)) a) : (y *> x <* z).Takes I K := by
  refine seqLeft (G := fun s a => ∃ t u b, s = t ++ u ∧ H t b ∧ G u a) ?_ ?_
  · exact hy.seqRight fun t b ht => hx.mono fun u a hu => ⟨t, u, b, rfl, ht, hu⟩
  · intro s a hs
    obtain ⟨t, u, b, rfl, ht, hu⟩ := hs
    refine hz.mono fun v c hv => ?_
    rw [List.append_assoc]
    exact hK ht hu hv

theorem optional {K : Phrase (Option α)} (hx : x.Takes I G) (hsome : ∀ t a, G t a → K t (some a))
    (hnone : K [] none) : (optional x).Takes I K :=
  (hx.map hsome).orElse (takes_pure hnone)

theorem word (hI : Kept I) {cs : List Char} (hcs : '\\' ∉ cs) {a : α} (ha : G cs a) :
    (word cs *> pure a : Reader α).Takes I G := by
  refine (takes_word hI hcs).seqRight fun t _ ht => takes_pure ?_
  rwa [ht, List.append_nil]

theorem blanks (hI : Kept I) {p : Char → Bool} (hp : p '\\' = false) :
    (many p).Takes I fun t _ => Blanks p t := by
  refine (takes_many hI hp).mono ?_
  intro t cs h
  obtain ⟨rfl, hcs⟩ := h
  exact hcs

theorem padded (hI : Kept I) {p : Char → Bool} (hp : p '\\' = false) (hx : x.Takes I G) :
    (padded p x).Takes I (Padded p G) :=
  between (blanks hI hp) hx (blanks hI hp) .intro

theorem spaced (hI : Kept I) (hx : x.Takes I G) :
    (Path.spaced x).Takes I (Padded Text.isBlank G) := padded hI (by decide) hx

theorem mark (hI : Kept I) {c : Char} (hc : c ≠ '\\') :
    (Path.spaced (char c)).Takes I fun t _ => Mark c t := by
  refine (spaced hI (takes_char hI hc)).mono ?_
  rintro t _ ⟨hw, rfl, hw'⟩
  exact .intro hw hw'

theorem enclosed (hI : Kept I) {opening closing : Char} (ho : opening ≠ '\\')
    (hc : closing ≠ '\\') (hx : x.Takes I G) :
    (Path.enclosed opening closing x).Takes I (Enclosed opening closing G) :=
  between (mark hI ho) hx (mark hI hc) .intro

theorem repeatUpTo (hr : r.Takes I G) (n : Nat) (s : List Char) (hs : I s) :
    I (repeatUpTo r n s).2 ∧
      ∃ t, s = t ++ (repeatUpTo r n s).2 ∧ Many G t (repeatUpTo r n s).1 := by
  induction n generalizing s with
  | zero => exact ⟨hs, [], rfl, .nil⟩
  | succ n ih =>
    rw [Reader.repeatUpTo]
    cases h : r s with
    | none => exact ⟨hs, [], rfl, .nil⟩
    | some q =>
      obtain ⟨hq, t, rfl, hG⟩ := hr s q.1 q.2 hs h
      obtain ⟨hrest, u, hu, hM⟩ := ih q.2 hq
      refine ⟨hrest, t ++ u, ?_, .cons hG hM⟩
      rw [List.append_assoc, ← hu]

theorem repeated (hr : r.Takes I G) : (repeated r).Takes I (Many G) := by
  intro s as rest hs h
  have hr' := hr.repeatUpTo s.length s hs
  rw [Reader.repeated, Option.some.injEq] at h
  rwa [h] at hr'

section
variable {separator : Reader Unit}

theorem separated_of_many {t ts : List Char} {a : α} {as : List α} (h : G t a)
    (hs : Many (fun t a => ∃ u v, t = u ++ v ∧ Mark ',' u ∧ G v a) ts as) :
    Separated G (t ++ ts) (a :: as) := by
  induction hs generalizing t a with
  | nil =>
    rw [List.append_nil]
    exact .one h
  | cons hb _ ih =>
    obtain ⟨u, v, rfl, hu, hv⟩ := hb
    rw [List.append_assoc]
    exact .cons h hu (ih hv)

theorem sepBy1 (hr : r.Takes I G) (hseparator : separator.Takes I fun t _ => Mark ',' t) :
    (sepBy1 r separator).Takes I (Separated G) := by
  refine hr.bind fun t a h => ?_
  have hmore : (separator *> r).Takes I fun t a => ∃ u v, t = u ++ v ∧ Mark ',' u ∧ G v a :=
    hseparator.seqRight fun u _ hu => hr.mono fun v a hv => ⟨u, v, rfl, hu, hv⟩
  refine hmore.repeated.bind fun ts as hs => takes_pure ?_
  rw [List.append_nil]
  exact separated_of_many h hs

theorem sepBy (hr : r.Takes I G) (hseparator : separator.Takes I fun t _ => Mark ',' t) :
    (sepBy r separator).Takes I (Listed G) :=
  ((hr.sepBy1 hseparator).mono fun _ _ h => .some h).orElse (takes_pure .none)

theorem sepEndBy (hr : r.Takes I G) (hseparator : separator.Takes I fun t _ => Mark ',' t) :
    (sepEndBy r separator).Takes I (Items G) := by
  refine orElse ((hr.sepBy1 hseparator).seqLeft fun t as h => ?_) (takes_pure (.listed .none))
  refine hseparator.optional (fun u _ hu => .trailing h hu) ?_
  rw [List.append_nil]
  exact .listed (.some h)

end
end Takes
end Reader
end JsonPath
