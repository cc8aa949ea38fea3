import Mathlib.Data.List.Induction
import JsonPath.Dictionary

/-! Dictionaries keep the order of their keys; one that is built from entries in that order is the
list of these entries. -/
namespace JsonPath.Dictionary

variable {α : Type} {d entries : List (String × α)} {key : String} {value : α}
  {e : String × α}

/-- The keys stand in strictly increasing order. -/
def Sorted (d : List (String × α)) : Prop := d.Pairwise fun e f => e.1 < f.1

theorem mem_insert (h : e ∈ insert key value d) : e = (key, value) ∨ e ∈ d := by
  induction d with
  | nil => exact .inl (List.mem_singleton.mp h)
  | cons f d ih =>
    obtain ⟨k, v⟩ := f
    simp only [insert] at h
    split at h
    · exact List.mem_cons.mp h
    · split at h
      · rcases List.mem_cons.mp h with h | h
        · exact .inl h
        · exact .inr (List.mem_cons_of_mem _ h)
      · rcases List.mem_cons.mp h with h | h
        · exact .inr (h ▸ List.mem_cons_self)
        · exact (ih h).imp id (List.mem_cons_of_mem _)

theorem sorted_insert (h : Sorted d) (key : String) (value : α) : Sorted (insert key value d) := by
  induction d with
  | nil => exact List.pairwise_singleton _ _
  | cons f d ih =>
    obtain ⟨k, v⟩ := f
    obtain ⟨hfirst, hrest⟩ := List.pairwise_cons.mp h
    simp only [insert]
    split
    next hlt =>
      refine List.pairwise_cons.mpr ⟨?_, h⟩
      exact List.forall_mem_cons.mpr ⟨hlt, fun e he => String.lt_trans hlt (hfirst e he)⟩
    next hlt =>
      split
      next heq =>
        subst heq
        exact List.pairwise_cons.mpr ⟨hfirst, hrest⟩
      next hne =>
        have hgt : k < key := by grind
        refine List.pairwise_cons.mpr ⟨?_, ih hrest⟩
        intro e he
        rcases mem_insert he with rfl | he
        · exact hgt
        · exact hfirst e he

/-- One more entry behind all others is appended. -/
theorem insert_last (h : ∀ e ∈ d, e.1 < key) : insert key value d = d ++ [(key, value)] := by
  induction d with
  | nil => rfl
  | cons f d ih =>
    obtain ⟨k, v⟩ := f
    obtain ⟨hk, hd⟩ := List.forall_mem_cons.mp h
    have hne : key ≠ k := by
      intro heq
      exact String.lt_irrefl k (heq ▸ hk)
    simp only [insert, if_neg (String.lt_asymm hk), if_neg hne, ih hd, List.cons_append]

theorem ofList_concat (entries : List (String × α)) (e : String × α) :
    ofList (entries ++ [e]) = insert e.1 e.2 (ofList entries) := by
  simp [ofList]

theorem sorted_ofList (entries : List (String × α)) : Sorted (ofList entries) := by
  induction entries using List.reverseRecOn with
  | nil => exact .nil
  | append_singleton entries e ih =>
    rw [ofList_concat]
    exact sorted_insert ih e.1 e.2

theorem mem_ofList (h : e ∈ ofList entries) : e ∈ entries := by
  induction entries using List.reverseRecOn with
  | nil => exact h
  | append_singleton entries f ih =>
    rw [ofList_concat] at h
    rcases mem_insert h with rfl | h
    · simp
    · exact List.mem_append_left _ (ih h)

theorem ofList_of_sorted (h : Sorted d) : ofList d = d := by
  induction d using List.reverseRecOn with
  | nil => rfl
  | append_singleton d e ih =>
    obtain ⟨hd, _, hlast⟩ := List.pairwise_append.mp h
    rw [ofList_concat, ih hd]
    exact insert_last fun f hf => hlast f hf e (List.mem_singleton_self e)

theorem lookup?_cons (k key : String) (value : α) (d : List (String × α)) :
    lookup? k ((key, value) :: d) = if k = key then some value else lookup? k d := by
  unfold lookup?
  rw [List.lookup_cons]
  by_cases h : k = key
  · rw [if_pos h, beq_iff_eq.mpr h]
  · rw [if_neg h, beq_eq_false_iff_ne.mpr h]

theorem lookup?_insert (k key : String) (value : α) (d : List (String × α)) :
    lookup? k (insert key value d) = if k = key then some value else lookup? k d := by
  induction d with
  | nil => exact lookup?_cons ..
  | cons e d ih =>
    obtain ⟨key', value'⟩ := e
    unfold insert
    split
    · rw [lookup?_cons]
    · split
      next heq =>
        subst heq
        rw [lookup?_cons, lookup?_cons]
        split <;> rfl
      next hne =>
        rw [lookup?_cons, lookup?_cons, ih]
        by_cases h : k = key'
        · rw [if_pos h, if_pos h, if_neg (h ▸ Ne.symm hne)]
        · rw [if_neg h, if_neg h]

/-- Of the entries with one key the last one counts. -/
theorem lookup?_ofList (key : String) (entries : List (String × α)) :
    lookup? key (ofList entries) = lookup? key entries.reverse := by
  induction entries using List.reverseRecOn with
  | nil => rfl
  | append_singleton entries e ih =>
    rw [ofList_concat, lookup?_insert, List.reverse_concat, lookup?_cons, ih]

theorem mem_keys_iff : key ∈ keys d ↔ ∃ value, lookup? key d = some value := by
  induction d with
  | nil => simp [keys, lookup?]
  | cons e d ih =>
    obtain ⟨k, v⟩ := e
    have hcons : keys ((k, v) :: d) = k :: keys d := rfl
    rw [hcons, List.mem_cons, ih, lookup?_cons]
    by_cases h : key = k
    · simp [h]
    · simp [h]

theorem mem_keys_ofList : key ∈ keys (ofList entries) ↔ ∃ value, (key, value) ∈ entries := by
  rw [mem_keys_iff, lookup?_ofList, ← mem_keys_iff]
  simp [keys]

theorem lookup?_ofList_of_last {before after : List (String × α)}
    (h : ∀ v, (key, v) ∉ after) :
    lookup? key (ofList (before ++ (key, value) :: after)) = some value := by
  have hafter : after.reverse.lookup key = none := by
    rw [List.lookup_eq_none_iff]
    intro e he
    obtain ⟨k, v⟩ := e
    rw [bne_iff_ne]
    intro hk
    subst hk
    exact h v (List.mem_reverse.mp he)
  rw [lookup?_ofList, lookup?, List.reverse_append, List.reverse_cons, List.lookup_append,
    List.lookup_append, hafter, Option.none_or, List.lookup_cons_self, Option.some_or]

end JsonPath.Dictionary
