/-! Phrases: which texts write which values. The rules that all formats share are here; formats
differ in what they take for a blank. -/
namespace JsonPath

/-- Which texts write which values. -/
abbrev Phrase (α : Type) := List Char → α → Prop

section Blanks
variable {blank : Char → Bool} {w w' s : List Char}

/-- A run of blanks, which may be empty. -/
def Blanks (blank : Char → Bool) (t : List Char) : Prop := ∀ c ∈ t, blank c = true

theorem blanks_nil : Blanks blank [] := fun _ hc => by cases hc

theorem Blanks.append (hw : Blanks blank w) (hw' : Blanks blank w') : Blanks blank (w ++ w') :=
  List.forall_mem_append.mpr ⟨hw, hw'⟩

theorem Blanks.mono {blank' : Char → Bool} (hw : Blanks blank w)
    (h : ∀ c, blank c = true → blank' c = true) : Blanks blank' w := fun c hc => h c (hw c hc)

theorem Blanks.eq_nil (hw : Blanks blank w)
    (hlast : ∀ c ∈ (s ++ w).getLast?, blank c = false) : w = [] := by
  refine Decidable.byContradiction fun hne => ?_
  have hmem : w.getLast hne ∈ (s ++ w).getLast? := by
    rw [List.getLast?_append, List.getLast?_eq_some_getLast hne]
    rfl
  have hblank := hw _ (List.getLast_mem hne)
  rw [hlast _ hmem] at hblank
  cases hblank

end Blanks

section Padded
variable {α : Type} {blank : Char → Bool} {G H : Phrase α} {t : List Char} {a : α}

/-- A text with blanks around it. -/
inductive Padded (blank : Char → Bool) (G : Phrase α) : Phrase α where
  | intro {w t w' : List Char} {a : α} (hw : Blanks blank w) (h : G t a) (hw' : Blanks blank w') :
    Padded blank G (w ++ (t ++ w')) a

theorem Padded.bare (h : G t a) : Padded blank G t a := by
  have h : Padded blank G ([] ++ (t ++ [])) a := .intro blanks_nil h blanks_nil
  rwa [List.nil_append, List.append_nil] at h

theorem Padded.imp (h : Padded blank G t a)
    (hGH : ∀ u a, u.length ≤ t.length → G u a → H u a) : Padded blank H t a := by
  obtain ⟨hw, h, hw'⟩ := h
  simp only [List.length_append] at hGH
  exact .intro hw (hGH _ _ (by omega) h) hw'

theorem Padded.mono {blank' : Char → Bool} (h : Padded blank G t a)
    (hblank : ∀ c, blank c = true → blank' c = true) : Padded blank' G t a := by
  obtain ⟨hw, h, hw'⟩ := h
  exact .intro (hw.mono hblank) h (hw'.mono hblank)

theorem Padded.blanks_append {w : List Char} (hw : Blanks blank w) (h : Padded blank G t a) :
    Padded blank G (w ++ t) a := by
  obtain ⟨hv, h, hv'⟩ := h
  rw [← List.append_assoc]
  exact .intro (hw.append hv) h hv'

end Padded

section Many
variable {α : Type} {G : Phrase α} {t u : List Char} {a : α} {as bs : List α}

inductive Many (G : Phrase α) : Phrase (List α) where
  | nil : Many G [] []
  | cons {t ts : List Char} {a : α} {as : List α} (h : G t a) (hs : Many G ts as) :
    Many G (t ++ ts) (a :: as)

theorem Many.one (h : G t a) : Many G t [a] := by
  have hone := Many.cons h .nil
  rwa [List.append_nil] at hone

theorem Many.append (h : Many G t as) (hu : Many G u bs) : Many G (t ++ u) (as ++ bs) := by
  induction h with
  | nil => exact hu
  | cons h _ ih =>
    rw [List.append_assoc]
    exact .cons h ih

theorem Many.length_le (h : Many G t as) (hG : ∀ u a, G u a → 0 < u.length) :
    as.length ≤ t.length := by
  induction h with
  | nil => exact Nat.le_refl 0
  | cons h _ ih =>
    have := hG _ _ h
    simp only [List.length_cons, List.length_append]
    omega

end Many
end JsonPath
