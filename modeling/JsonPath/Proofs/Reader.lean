import JsonPath.Text.Reader

/-! What readers do to a text: one law for each way of putting them together. -/
namespace JsonPath.Reader

variable {α β : Type}

@[simp] theorem pure_apply (a : α) (s : List Char) : (pure a : Reader α) s = some (a, s) := rfl

@[simp] theorem failure_apply (s : List Char) : (failure : Reader α) s = none := rfl

@[simp] theorem bind_apply (x : Reader α) (f : α → Reader β) (s : List Char) :
    (x >>= f) s = (x s).bind fun p => f p.1 p.2 := rfl

@[simp] theorem map_apply (f : α → β) (x : Reader α) (s : List Char) :
    (f <$> x) s = (x s).map fun p => (f p.1, p.2) := by
  rw [map_eq_pure_bind, bind_apply]
  cases x s <;> rfl

@[simp] theorem seq_apply (f : Reader (α → β)) (x : Reader α) (s : List Char) :
    (f <*> x) s = (f s).bind fun p => (x p.2).map fun q => (p.1 q.1, q.2) := by
  simp only [seq_eq_bind_map, bind_apply, map_apply]

@[simp] theorem seqRight_apply (x : Reader α) (y : Reader β) (s : List Char) :
    (x *> y) s = (x s).bind fun p => y p.2 := by
  rw [seqRight_eq_bind, bind_apply]

@[simp] theorem seqLeft_apply (x : Reader α) (y : Reader β) (s : List Char) :
    (x <* y) s = (x s).bind fun p => (y p.2).map fun q => (p.1, q.2) := by
  rw [seqLeft_eq_bind, bind_apply]
  congr 1
  funext p
  rw [bind_apply]
  cases y p.2 <;> rfl

@[simp] theorem orElse_apply (x y : Reader α) (s : List Char) :
    (x <|> y) s = (x s).or (y s) := by
  change (x s).orElse (fun _ => y s) = _
  cases x s <;> rfl

@[simp] theorem optional_apply (r : Reader α) (s : List Char) :
    optional r s = ((r s).map fun p => (some p.1, p.2)).or (some (none, s)) := by
  simp only [optional, orElse_apply, map_apply, pure_apply]

@[simp] theorem char_self (c : Char) (s : List Char) : char c (c :: s) = some ((), s) := if_pos rfl

theorem char_ne {c d : Char} (h : d ≠ c) (s : List Char) : char c (d :: s) = none := if_neg h

@[simp] theorem char_nil (c : Char) : char c [] = none := rfl

theorem word_of_ne {c d : Char} (h : d ≠ c) (cs s : List Char) :
    word (c :: cs) (d :: s) = none := if_neg h

@[simp] theorem many_apply (p : Char → Bool) (s : List Char) :
    many p s = some (s.takeWhile p, s.dropWhile p) := rfl

theorem padded_apply (p : Char → Bool) (r : Reader α) (s : List Char) :
    padded p r s = (r (s.dropWhile p)).map fun q => (q.1, q.2.dropWhile p) := by
  simp only [padded, seqLeft_apply, seqRight_apply, many_apply, Option.bind_some, Option.map_some]
  cases r (s.dropWhile p) <;> rfl

theorem takeWhile_eq_nil {p : Char → Bool} {s : List Char} (h : ∀ c ∈ s.head?, p c = false) :
    s.takeWhile p = [] := by
  cases s with
  | nil => rfl
  | cons c s => simp [h c rfl]

theorem dropWhile_eq_self {p : Char → Bool} {s : List Char} (h : ∀ c ∈ s.head?, p c = false) :
    s.dropWhile p = s := by
  cases s with
  | nil => rfl
  | cons c s => simp [h c rfl]

/-- Nothing is skipped where nothing can be. -/
theorem padded_eq_self {p : Char → Bool} {r : Reader α} {s : List Char}
    (hs : ∀ c ∈ s.head?, p c = false)
    (hr : ∀ a rest, r s = some (a, rest) → ∀ c ∈ rest.head?, p c = false) :
    padded p r s = r s := by
  rw [padded_apply, dropWhile_eq_self hs]
  cases h : r s with
  | none => rfl
  | some q => rw [Option.map_some, dropWhile_eq_self (hr q.1 q.2 h)]

theorem padded_eq {p : Char → Bool} {r : Reader α} {s rest : List Char} {a : α}
    (hs : ∀ c ∈ s.head?, p c = false) (hrest : ∀ c ∈ rest.head?, p c = false)
    (h : r s = some (a, rest)) : padded p r s = some (a, rest) := by
  rw [padded_eq_self hs]
  · exact h
  · intro b rest' h'
    rw [h] at h'
    cases h'
    exact hrest

theorem many1_append {p : Char → Bool} {cs rest : List Char} (hne : cs ≠ [])
    (hcs : ∀ c ∈ cs, p c = true) (hrest : ∀ c ∈ rest.head?, p c = false) :
    many1 p (cs ++ rest) = some (cs, rest) := by
  cases cs with
  | nil => contradiction
  | cons c cs =>
    obtain ⟨hc, hcs⟩ := List.forall_mem_cons.mp hcs
    simp [many1, satisfy, hc, List.takeWhile_append_of_pos hcs, List.dropWhile_append_of_pos hcs,
      takeWhile_eq_nil hrest, dropWhile_eq_self hrest]

theorem repeatUpTo_of_none {r : Reader α} {s : List Char} (h : r s = none) (n : Nat) :
    repeatUpTo r n s = ([], s) := by
  cases n with
  | zero => rfl
  | succ n => rw [repeatUpTo, h]

/-- A reader that takes back each item as it is written takes back a list of them, and goes on
behind it. -/
theorem repeatUpTo_flatMap {r : Reader α} {write : α → List Char} {as : List α}
    (hr : ∀ a ∈ as, ∀ rest, r (write a ++ rest) = some (a, rest)) (n : Nat) (rest : List Char) :
    repeatUpTo r (as.length + n) (as.flatMap write ++ rest) =
      (as ++ (repeatUpTo r n rest).1, (repeatUpTo r n rest).2) := by
  induction as with
  | nil => simp
  | cons a as ih =>
    obtain ⟨ha, has⟩ := List.forall_mem_cons.mp hr
    rw [List.flatMap_cons, List.append_assoc, List.length_cons, Nat.add_right_comm, repeatUpTo, ha]
    simp only [ih has, List.cons_append]

theorem length_le_flatMap {write : α → List Char} {as : List α} (h : ∀ a ∈ as, write a ≠ []) :
    as.length ≤ (as.flatMap write).length := by
  induction as with
  | nil => exact Nat.le_refl 0
  | cons a as ih =>
    obtain ⟨ha, has⟩ := List.forall_mem_cons.mp h
    have := ih has
    have := List.length_pos_iff.mpr ha
    simp only [List.flatMap_cons, List.length_append, List.length_cons]
    omega

/-- What is left over when a list of items has been read back is read on. -/
theorem repeated_flatMap {r : Reader α} {write : α → List Char} {as : List α}
    (hne : ∀ a ∈ as, write a ≠ [])
    (hr : ∀ a ∈ as, ∀ rest, r (write a ++ rest) = some (a, rest)) (rest : List Char) :
    ∃ n, rest.length ≤ n ∧ repeated r (as.flatMap write ++ rest) =
      some (as ++ (repeatUpTo r n rest).1, (repeatUpTo r n rest).2) := by
  have hlength := length_le_flatMap hne
  refine ⟨(as.flatMap write).length - as.length + rest.length, by omega, ?_⟩
  rw [repeated, ← repeatUpTo_flatMap hr, List.length_append]
  congr 2
  omega

end JsonPath.Reader
