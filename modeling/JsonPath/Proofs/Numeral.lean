import JsonPath.Json.Numeral
import JsonPath.Proofs.Reader
import JsonPath.Text.Integer

/-! Written integers read back. -/
namespace JsonPath

open Reader

namespace Numeral

theorem digits_toDigits (n : Nat) {rest : List Char}
    (hrest : ∀ c ∈ rest.head?, c.isDigit = false) :
    digits (Nat.toDigits 10 n ++ rest) = some (Nat.toDigits 10 n, rest) :=
  many1_append Nat.toDigits_ne_nil
    (fun _ hc => Nat.isDigit_of_mem_toDigits (by decide) (by decide) hc) hrest

theorem natOfDigits_toDigits (n : Nat) : natOfDigits (Nat.toDigits 10 n) = n :=
  Nat.ofDigitChars_ten_toDigits

theorem toDigits_eq_cons (n : Nat) : ∃ d ds, Nat.toDigits 10 n = d :: ds ∧ d.isDigit = true := by
  obtain ⟨d, ds, hd⟩ := List.exists_cons_of_ne_nil (Nat.toDigits_ne_nil (b := 10) (n := n))
  exact ⟨d, ds, hd, Nat.isDigit_of_mem_toDigits (by decide) (by decide) (hd ▸ List.mem_cons_self)⟩

/-- A written integer starts with a sign or a digit. -/
theorem ofInt_eq_cons (i : Int) :
    ∃ c cs, Text.ofInt i = c :: cs ∧ 44 < c.toNat ∧ c.toNat < 58 := by
  unfold Text.ofInt
  by_cases hn : i < 0
  · exact ⟨_, _, if_pos hn, by decide, by decide⟩
  · obtain ⟨d, ds, hd, hdigit⟩ := toDigits_eq_cons i.natAbs
    have hrange := Char.isDigit_iff_toNat.mp hdigit
    simp only [Char.reduceToNat] at hrange
    exact ⟨d, ds, by simp [hn, hd], by omega, by omega⟩

theorem minus_ofInt (i : Int) (rest : List Char) :
    minus (Text.ofInt i ++ rest) = some (decide (i < 0), Nat.toDigits 10 i.natAbs ++ rest) := by
  unfold Text.ofInt
  by_cases hn : i < 0
  · simp [minus, hn]
  · obtain ⟨d, ds, hd, hdigit⟩ := toDigits_eq_cons i.natAbs
    have hne : d ≠ '-' := by
      intro h
      subst h
      revert hdigit
      decide
    simp [minus, hn, hd, char_ne hne]

theorem signed_natAbs (i : Int) : (if i < 0 then -(i.natAbs : Int) else i.natAbs) = i := by
  split <;> omega

/-- Only zero is written with a zero in front. -/
theorem toDigits_first_ne_zero (n : Nat) (hn : 0 < n) :
    ∃ d ds, Nat.toDigits 10 n = d :: ds ∧ d ≠ '0' := by
  induction n using Nat.strongRecOn with
  | ind n ih =>
    by_cases hlt : n < 10
    · have hdigit : ∀ k < 10, 0 < k → Nat.digitChar k ≠ '0' := by decide
      exact ⟨_, [], Nat.toDigits_of_lt_base hlt, hdigit n hlt hn⟩
    · obtain ⟨d, ds, hd, hne⟩ := ih (n / 10) (by omega) (by omega)
      refine ⟨d, ds ++ [Nat.digitChar (n % 10)], ?_, hne⟩
      rw [Nat.toDigits_of_base_le (by decide) (by omega), hd, List.cons_append]

theorem hasLeadingZero_toDigits (negative : Bool) (n : Nat) :
    hasLeadingZero ⟨negative, Nat.toDigits 10 n, none, none⟩ = false := by
  unfold hasLeadingZero
  by_cases hn : n = 0
  · subst hn
    rfl
  · obtain ⟨d, ds, hd, hne⟩ := toDigits_first_ne_zero n (Nat.pos_of_ne_zero hn)
    split
    next h =>
      rw [hd] at h
      cases h
      exact absurd rfl hne
    next => rfl

/-- The numeral that an integer is written as. -/
def ofInt (i : Int) : Numeral := ⟨decide (i < 0), Nat.toDigits 10 i.natAbs, none, none⟩

theorem toInt?_ofInt (i : Int) : (ofInt i).toInt? = some i := by
  have hvalue := signed_natAbs i
  by_cases hn : i < 0
  · have hzero : i.natAbs ≠ 0 := by omega
    rw [if_pos hn] at hvalue
    simp only [ofInt, toInt?, natOfDigits_toDigits, hn, decide_true, if_true, hzero, if_false,
      hvalue]
  · rw [if_neg hn] at hvalue
    simp only [ofInt, toInt?, natOfDigits_toDigits, hn, decide_false, Bool.false_eq_true, if_false,
      hvalue]

theorem value?_ofInt (n : Integer) : (ofInt n.value).value? = some (.integer n) := by
  have hn : Integer.ofInt? n.value = some n := by
    rw [Integer.ofInt?, dif_pos ⟨n.lower, n.upper⟩]
  unfold value?
  rw [toInt?_ofInt, Option.bind_some, hn]
  simp [ofInt, hasLeadingZero_toDigits]

/-- What stands behind a number so that it ends there. -/
def Ends (s : List Char) : Prop :=
  ∀ c ∈ s.head?, c.isDigit = false ∧ c ≠ '.' ∧ c ≠ 'e' ∧ c ≠ 'E'

theorem read_ofInt (i : Int) {rest : List Char} (hrest : Ends rest) :
    read (Text.ofInt i ++ rest) = some (ofInt i, rest) := by
  have hdigits := digits_toDigits i.natAbs fun c hc => (hrest c hc).1
  have hchar (c : Char) (hc : ∀ d ∈ rest.head?, d ≠ c) : char c rest = none := by
    cases rest with
    | nil => rfl
    | cons d s => exact char_ne (hc d rfl) s
  have hpoint := hchar '.' fun d hd => (hrest d hd).2.1
  have hlower := hchar 'e' fun d hd => (hrest d hd).2.2.1
  have hupper := hchar 'E' fun d hd => (hrest d hd).2.2.2
  simp only [read, bind_apply, minus_ofInt, Option.bind_some, hdigits, optional_apply,
    seqRight_apply, hpoint, Option.bind_none, Option.map_none, Option.none_or, readExponent,
    orElse_apply, hlower, hupper, pure_apply, ofInt]

end Numeral

theorem Number.read_ofInt (n : Integer) {rest : List Char} (hrest : Numeral.Ends rest) :
    Number.read (Text.ofInt n.value ++ rest) = some (.integer n, rest) := by
  simp only [Number.read, Numeral.read_ofInt n.value hrest, Option.bind_eq_bind, Option.bind_some,
    Numeral.value?_ofInt]
  rfl

end JsonPath
