import Mathlib.Data.List.TakeWhile
import JsonPath.Proofs.Reader

/-! Lists of items with commas between them, as they are written and read. -/
namespace JsonPath.Reader

variable {α : Type}

/-- Items as they are written, with commas between them. -/
def commaSeparated (write : α → List Char) : List α → List Char
  | [] => []
  | a :: as => write a ++ as.flatMap fun b => ',' :: write b

variable {item : Reader α} {write : α → List Char} {ok : α → Bool} {as : List α}
  {closing : Char} {rest : List Char}

/-- Behind an item stands a comma or what closes the list. -/
theorem commas_eq_cons (write : α → List Char) (as : List α) (closing : Char) (rest : List Char) :
    ∃ c s, (as.flatMap fun b => ',' :: write b) ++ closing :: rest = c :: s ∧
      (c = ',' ∨ c = closing) := by
  cases as with
  | nil => exact ⟨closing, rest, rfl, .inr rfl⟩
  | cons a as => exact ⟨',', _, rfl, .inl rfl⟩

/-- Reading goes on up to the first item that cannot be read. -/
theorem repeatUpTo_commas {n : Nat} (hc : closing ≠ ',')
    (hitem : ∀ a ∈ as, ∀ c s, c = ',' ∨ c = closing →
      item (write a ++ c :: s) = if ok a then some (a, c :: s) else none)
    (hn : as.length ≤ n) :
    repeatUpTo (char ',' *> item) n ((as.flatMap fun b => ',' :: write b) ++ closing :: rest) =
      (as.takeWhile ok, ((as.dropWhile ok).flatMap fun b => ',' :: write b) ++ closing :: rest) := by
  induction as generalizing n with
  | nil => cases n <;> simp [repeatUpTo, char_ne hc]
  | cons a as ih =>
    obtain ⟨ha, has⟩ := List.forall_mem_cons.mp hitem
    cases n with
    | zero => simp at hn
    | succ n =>
      have hn' : as.length ≤ n := by simpa using hn
      obtain ⟨c, s, htail, hcs⟩ := commas_eq_cons write as closing rest
      have hread : (char ',' *> item) (((a :: as).flatMap fun b => ',' :: write b) ++
          closing :: rest) = if ok a then some (a, c :: s) else none := by
        rw [List.flatMap_cons, List.append_assoc, htail, List.cons_append, seqRight_apply,
          char_self, Option.bind_some, ha c s hcs]
      rw [repeatUpTo, hread]
      cases hok : ok a with
      | false => simp [hok]
      | true => simp [hok, ← htail, ih has hn']

/-- A list of items reads back if each of them does, and else is refused. -/
theorem sepBy_commaSeparated (hc : closing ≠ ',')
    (hitem : ∀ a ∈ as, ∀ c s, c = ',' ∨ c = closing →
      item (write a ++ c :: s) = if ok a then some (a, c :: s) else none)
    (hempty : ∀ s, item (closing :: s) = none)
    (hfirst : ∀ a ∈ as, ∀ s, char closing (write a ++ s) = none) :
    (sepBy item (char ',') <* char closing) (commaSeparated write as ++ closing :: rest) =
      if as.all ok then some (as, rest) else none := by
  cases as with
  | nil => simp [commaSeparated, sepBy, sepBy1, hempty]
  | cons a as =>
    obtain ⟨ha, has⟩ := List.forall_mem_cons.mp hitem
    obtain ⟨c, s, htail, hcs⟩ := commas_eq_cons write as closing rest
    have hread : item (commaSeparated write (a :: as) ++ closing :: rest) =
        if ok a then some (a, c :: s) else none := by
      rw [commaSeparated, List.append_assoc, htail, ha c s hcs]
    have hlength : as.length ≤ (as.flatMap fun b => ',' :: write b).length :=
      length_le_flatMap fun b _ => List.cons_ne_nil _ _
    have hrepeated : repeated (char ',' *> item) (c :: s) = some (as.takeWhile ok,
        ((as.dropWhile ok).flatMap fun b => ',' :: write b) ++ closing :: rest) := by
      rw [repeated, ← htail, repeatUpTo_commas hc has (by rw [List.length_append]; omega)]
    cases hok : ok a with
    | false =>
      have hnone : item (commaSeparated write (a :: as) ++ closing :: rest) = none := by
        rw [hread, hok]
        rfl
      have hclosing : char closing (commaSeparated write (a :: as) ++ closing :: rest) = none := by
        rw [commaSeparated, List.append_assoc]
        exact hfirst a List.mem_cons_self _
      simp only [sepBy, sepBy1, seqLeft_apply, orElse_apply, bind_apply, hnone, Option.bind_none,
        Option.none_or, pure_apply, Option.bind_some, hclosing, Option.map_none, List.all_cons, hok,
        Bool.false_and, Bool.false_eq_true, if_false]
    | true =>
      simp only [sepBy, sepBy1, seqLeft_apply, orElse_apply, bind_apply, hread, hok, if_true,
        Option.bind_some, hrepeated, pure_apply, Option.some_or, List.all_cons, Bool.true_and]
      by_cases hall : as.all ok = true
      · have hforall := List.all_eq_true.mp hall
        rw [if_pos hall, List.takeWhile_eq_self_iff.mpr hforall,
          List.dropWhile_eq_nil_iff.mpr hforall]
        simp
      · rw [if_neg hall]
        cases hdrop : as.dropWhile ok with
        | nil => exact absurd (List.all_eq_true.mpr (List.dropWhile_eq_nil_iff.mp hdrop)) hall
        | cons b bs => simp [char_ne hc.symm]

end JsonPath.Reader
