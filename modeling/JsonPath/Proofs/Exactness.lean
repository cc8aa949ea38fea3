import JsonPath.Proofs.Aggregating
import JsonPath.Proofs.Coercion

/-! Aggregations of integers are exact. The 128 bits of a running total hold the sum of fewer than
`2 ^ 63` integers whatever their signs are, so that no double is ever taken of them. -/
namespace JsonPath

theorem Tally.next?_integer {t : Tally} {n : Integer} (h : fits (t.total + n.value) = true) :
    t.next? (.integer n) = some ⟨t.total + n.value, some (t.least.elim n.value (min · n.value)),
      some (t.greatest.elim n.value (max · n.value))⟩ := if_pos h

theorem Tally.fits_of_natAbs {total : Int}
    (h : total.natAbs < 170141183460469231731687303715884105728) : fits total = true := by
  have hlower : -170141183460469231731687303715884105728 ≤ total := by omega
  have hupper : total < 170141183460469231731687303715884105728 := by omega
  simp [fits, hlower, hupper]

theorem Integer.natAbs_le (n : Integer) : n.value.natAbs ≤ 18446744073709551616 := by
  have hlower := n.lower
  have hupper := n.upper
  omega

/-- From a tally that has met a number. As long as the total and the integers to come leave room, each
step keeps the total exact. -/
theorem Tally.foldlM_next? (is : List Integer) (s low high : Int)
    (h : s.natAbs + is.length * 18446744073709551616 < 170141183460469231731687303715884105728) :
    (is.map Number.integer).foldlM next? ⟨s, some low, some high⟩ =
      some ⟨s + (is.map Integer.value).sum, some ((is.map Integer.value).foldl min low),
        some ((is.map Integer.value).foldl max high)⟩ := by
  induction is generalizing s low high with
  | nil => simp
  | cons i is ih =>
    have hi := i.natAbs_le
    have hsum := Int.natAbs_add_le s i.value
    rw [List.length_cons] at h
    have hfits : fits (s + i.value) = true := fits_of_natAbs (by omega)
    have hrest := ih (s + i.value) (min low i.value) (max high i.value) (by omega)
    rw [List.map_cons, List.foldlM_cons, next?_integer hfits]
    simp only [Option.elim_some, Option.bind_eq_bind, Option.bind_some, hrest, List.map_cons,
      List.sum_cons, List.foldl_cons, Int.add_assoc]

namespace Aggregation

/-- The numbers that an aggregation of a value reaches, with arguments that have these values. -/
def reached (model : Json) (values : List Json) : List Number :=
  model.elements.filterMap number? ++ values.flatMap held

/-- The integer that integers come to. A mean is a double and is none. -/
def exactResult? : Aggregation → List Int → Option Int
  | sum, ns => some ns.sum
  | min, ns => ns.min?
  | max, ns => ns.max?
  | average, _ | deviation, _ => none

variable {a : Aggregation} {is : List Integer}

theorem result?_ofNumbers? (hsome : is ≠ []) (hcount : is.length < 9223372036854775808) :
    ∃ t, Tally.ofNumbers? (is.map .integer) = some t ∧
      ∀ a, t.result? a = exactResult? a (is.map Integer.value) := by
  cases is with
  | nil => contradiction
  | cons i is =>
    have hi := i.natAbs_le
    rw [List.length_cons] at hcount
    have hfits : Tally.fits (Tally.empty.total + i.value) = true :=
      Tally.fits_of_natAbs (by simp only [Tally.empty]; omega)
    have hrest := Tally.foldlM_next? is i.value i.value i.value (by omega)
    have htally : Tally.ofNumbers? ((i :: is).map .integer) =
        (is.map Number.integer).foldlM Tally.next? ⟨i.value, some i.value, some i.value⟩ := by
      rw [Tally.ofNumbers?, List.map_cons, List.foldlM_cons, Tally.next?_integer hfits]
      simp [Tally.empty]
    refine ⟨_, htally.trans hrest, ?_⟩
    intro a
    cases a <;> simp only [Tally.result?, exactResult?, List.map_cons, List.sum_cons, List.min?_cons',
      List.max?_cons']

/-- Integers are aggregated exactly whenever a JSON integer can hold what they come to. -/
theorem value?_of_exactResult? (hsome : is ≠ []) (hcount : is.length < 9223372036854775808) {m : Integer}
    (h : a.exactResult? (is.map Integer.value) = some m.value) :
    a.value? (is.map .integer) = some (.number (.integer m)) := by
  obtain ⟨t, ht, hresult⟩ := result?_ofNumbers? hsome hcount
  have hm : Number.ofInt? m.value = some (.integer m) := by
    simp [Number.ofInt?, Integer.ofInt?, m.lower, m.upper]
  have hexact : (Tally.ofNumbers? (is.map .integer)).bind (·.result? a) = some m.value := by
    rw [ht, Option.bind_some, hresult, h]
  cases is with
  | nil => contradiction
  | cons i is =>
    rw [List.map_cons] at hexact
    simp only [List.map_cons, value?, hexact, Option.bind_some, hm]

theorem invoke_of_exactResult? {model : Json} {ps : List Parameter} {vs : List Json}
    (hvalues : ps.map Parameter.value = vs.map .ok) (hreached : reached model vs = is.map .integer)
    (hsome : is ≠ []) (hcount : is.length < 9223372036854775808) {m : Integer}
    (h : a.exactResult? (is.map Integer.value) = some m.value) :
    a.invoke model (ps.map Parameter.resolve) = .ok (.number (.integer m)) := by
  have hall : (ps.map Parameter.resolve).mapM Operand.value = .ok vs := by
    rw [Operand.mapM_value_resolve]
    exact mapM_eq_ok_iff.mpr hvalues
  have hnumbers : numbers model (ps.map Parameter.resolve) = .ok (is.map .integer) := by
    rw [numbers_eq, hall, ← hreached]
    rfl
  have hvalue := value?_of_exactResult? hsome hcount h
  rw [invoke_eq, hnumbers]
  simp [conclude, hvalue, Except.bind]

theorem exactResult?_perm {ns ns' : List Int} (h : ns.Perm ns') : a.exactResult? ns = a.exactResult? ns' := by
  cases a with
  | sum => exact congrArg some h.sum_eq
  | min =>
    apply Option.ext
    intro m
    simp only [exactResult?, List.min?_eq_some_iff, h.mem_iff]
  | max =>
    apply Option.ext
    intro m
    simp only [exactResult?, List.max?_eq_some_iff, h.mem_iff]
  | average => rfl
  | deviation => rfl

theorem exists_least (hsome : is ≠ []) :
    ∃ m ∈ is, exactResult? .min (is.map Integer.value) = some m.value ∧ ∀ i ∈ is, m.value ≤ i.value := by
  have hne : is.map Integer.value ≠ [] := by simpa using hsome
  obtain ⟨v, hv⟩ := Option.isSome_iff_exists.mp (List.isSome_min?_of_ne_nil hne)
  obtain ⟨hmem, hle⟩ := List.min?_eq_some_iff.mp hv
  obtain ⟨m, hm, rfl⟩ := List.mem_map.mp hmem
  exact ⟨m, hm, hv, fun i hi => hle i.value (List.mem_map_of_mem hi)⟩

theorem exists_greatest (hsome : is ≠ []) :
    ∃ m ∈ is, exactResult? .max (is.map Integer.value) = some m.value ∧ ∀ i ∈ is, i.value ≤ m.value := by
  have hne : is.map Integer.value ≠ [] := by simpa using hsome
  obtain ⟨v, hv⟩ := Option.isSome_iff_exists.mp (List.isSome_max?_of_ne_nil hne)
  obtain ⟨hmem, hle⟩ := List.max?_eq_some_iff.mp hv
  obtain ⟨m, hm, rfl⟩ := List.mem_map.mp hmem
  exact ⟨m, hm, hv, fun i hi => hle i.value (List.mem_map_of_mem hi)⟩

end Aggregation

/-- Aggregations of integers only, fewer than `2 ^ 63` of them: the least and the greatest are given
as they are, and so is the total if 64 bits can hold it, whatever the totals on the way are. The same
integers have the same results in any order, wherever they come from. -/
theorem aggregate_integers (path : String) (model : Json) (ps : List Parameter) {vs : List Json}
    {is : List Integer} (hvalues : ps.map Parameter.value = vs.map .ok)
    (hreached : Aggregation.reached model vs = is.map .integer) (hsome : is ≠ [])
    (hcount : is.length < 9223372036854775808) :
    let outcome (a : Aggregation) (model : Json) (ps : List Parameter) :=
      (Function.aggregate a).invoke path model (ps.map Parameter.resolve)
    let total := (is.map Integer.value).sum
    let inRange := -9223372036854775808 ≤ total ∧ total ≤ 18446744073709551615
    (∃ m ∈ is, outcome .min model ps = .ok (.number (.integer m)) ∧ ∀ i ∈ is, m.value ≤ i.value) ∧
    (∃ m ∈ is, outcome .max model ps = .ok (.number (.integer m)) ∧ ∀ i ∈ is, i.value ≤ m.value) ∧
    (inRange → ∃ t : Integer, t.value = total ∧
      outcome .sum model ps = .ok (.number (.integer t))) ∧
    ∀ (model' : Json) (ps' : List Parameter) (vs' : List Json) (is' : List Integer),
      ps'.map Parameter.value = vs'.map .ok → Aggregation.reached model' vs' = is'.map .integer →
      is'.Perm is →
        outcome .min model' ps' = outcome .min model ps ∧
        outcome .max model' ps' = outcome .max model ps ∧
        (inRange → outcome .sum model' ps' = outcome .sum model ps) := by
  intro outcome total inRange
  have hexact {a : Aggregation} {m : Integer} (h : a.exactResult? (is.map Integer.value) = some m.value) :
      outcome a model ps = .ok (.number (.integer m)) :=
    Aggregation.invoke_of_exactResult? hvalues hreached hsome hcount h
  have hsum (h : inRange) : ∃ t : Integer, t.value = total ∧
      Aggregation.sum.exactResult? (is.map Integer.value) = some t.value :=
    ⟨⟨total, h.1, by omega⟩, rfl, rfl⟩
  obtain ⟨low, hlow, hleast, hle⟩ := Aggregation.exists_least hsome
  obtain ⟨high, hhigh, hgreatest, hge⟩ := Aggregation.exists_greatest hsome
  refine ⟨⟨low, hlow, hexact hleast, hle⟩, ⟨high, hhigh, hexact hgreatest, hge⟩, ?_, ?_⟩
  · intro h
    obtain ⟨t, ht, htotal⟩ := hsum h
    exact ⟨t, ht, hexact htotal⟩
  · intro model' ps' vs' is' hvalues' hreached' hperm
    have hsome' : is' ≠ [] := fun h => hsome (h ▸ hperm).nil_eq.symm
    have hcount' : is'.length < 9223372036854775808 := hperm.length_eq ▸ hcount
    have hsame {a : Aggregation} {m : Integer}
        (h : a.exactResult? (is.map Integer.value) = some m.value) :
        outcome a model' ps' = outcome a model ps := by
      have hother := (Aggregation.exactResult?_perm (hperm.map Integer.value)).trans h
      have houtcome : outcome a model' ps' = .ok (.number (.integer m)) :=
        Aggregation.invoke_of_exactResult? hvalues' hreached' hsome' hcount' hother
      rw [houtcome, hexact h]
    refine ⟨hsame hleast, hsame hgreatest, ?_⟩
    intro h
    obtain ⟨t, _, htotal⟩ := hsum h
    exact hsame htotal

/-- `sum`, `min` and `max` of twice the greatest and twice the least integer of 64 bits, some of them in
an array and some as arguments. The total fits although the totals on the way do not. -/
theorem aggregate_integers_cancel :
    let high : Integer := ⟨18446744073709551615, by decide, by decide⟩
    let literal (text : String) : Parameter := (Parameter.literal text).bind ⟨.standard, .null⟩ .null
    let model : Json := .array [.number (.integer high), .string "x", .number (.integer high)]
    let ps : List Parameter :=
      [literal "[-9223372036854775808, null]", literal "-9223372036854775808"]
    let ps' : List Parameter :=
      [literal "[-9223372036854775808, 18446744073709551615, -9223372036854775808]",
        literal "18446744073709551615"]
    let outcome (a : Aggregation) (model : Json) (ps : List Parameter) :=
      (Function.aggregate a).invoke "$" model (ps.map Parameter.resolve)
    (∃ m : Integer, m.value = -9223372036854775808 ∧
        outcome .min model ps = .ok (.number (.integer m))) ∧
      (∃ m : Integer, m.value = 18446744073709551615 ∧
        outcome .max model ps = .ok (.number (.integer m))) ∧
      (∃ t : Integer, t.value = 18446744073709551614 ∧
        outcome .sum model ps = .ok (.number (.integer t))) ∧
      outcome .sum .null ps' = outcome .sum model ps := by
  intro high literal model ps ps' outcome
  let low : Integer := ⟨-9223372036854775808, by decide, by decide⟩
  let is : List Integer := [high, high, low, low]
  let is' : List Integer := [low, high, low, high]
  let vs : List Json := [.array [.number (.integer low), .null], .number (.integer low)]
  let vs' : List Json := [.array [.number (.integer low), .number (.integer high),
    .number (.integer low)], .number (.integer high)]
  have hvalues : ps.map Parameter.value = vs.map .ok := by
    simp only [ps, vs, literal, low]
    cbv
  have hvalues' : ps'.map Parameter.value = vs'.map .ok := by
    simp only [ps', vs', literal, low, high]
    cbv
  have hreached : Aggregation.reached model vs = is.map .integer := rfl
  have hreached' : Aggregation.reached .null vs' = is'.map .integer := rfl
  have hperm : is'.Perm is := by decide
  have hrange : -9223372036854775808 ≤ (is.map Integer.value).sum ∧
      (is.map Integer.value).sum ≤ 18446744073709551615 := by decide
  obtain ⟨⟨m, hm, hmin, hle⟩, ⟨m', hm', hmax, hge⟩, hsum, hother⟩ :=
    aggregate_integers "$" model ps hvalues hreached (by simp [is]) (by decide)
  have hleast : m.value = -9223372036854775808 := by
    have hlow : m.value ≤ -9223372036854775808 := hle low (by simp [is])
    have hlower := m.lower
    omega
  have hgreatest : m'.value = 18446744073709551615 := by
    have hhigh : 18446744073709551615 ≤ m'.value := hge high (by simp [is])
    have hupper := m'.upper
    omega
  obtain ⟨t, ht, hsum⟩ := hsum hrange
  have htotal : t.value = 18446744073709551614 := ht.trans (by decide)
  obtain ⟨_, _, hsame⟩ := hother .null ps' vs' is' hvalues' hreached' hperm
  exact ⟨⟨m, hleast, hmin⟩, ⟨m', hgreatest, hmax⟩, ⟨t, htotal, hsum⟩, hsame hrange⟩

end JsonPath
