import JsonPath.Proofs.Composition
import JsonPath.Proofs.Interchange

/-! Picking an element of an array: by a position in brackets, or by a call of `index`, `first` or
`last`. Where a position in brackets finds an element, the calls give the same one, in every path. -/
namespace JsonPath

namespace Collection

/-- A position within the bounds of an array means its residue. -/
theorem effective_eq_emod {position : Int} {length : Nat} (hl : -(length : Int) ≤ position)
    (hu : position < length) : effective position length = position % length := by
  unfold effective
  by_cases hn : 0 ≤ position
  · rw [if_pos hn, Int.emod_eq_of_lt hn hu]
  · have hshift : position % length = (position + length) % length := by
      rw [Int.add_emod_right]
    rw [if_neg hn, hshift, Int.emod_eq_of_lt (by omega) (by omega)]
    omega

theorem pick?_of_inside {position : Int} {es : List Json} (hl : -(es.length : Int) ≤ position)
    (hu : position < es.length) :
    ∃ v, es[(position % es.length).toNat]? = some v ∧
      pick? position es = some ((position % es.length).toNat, v) := by
  have hpos : (0 : Int) < es.length := by omega
  have hnonneg : 0 ≤ position % es.length := Int.emod_nonneg position (by omega)
  have hlt : position % es.length < es.length := Int.emod_lt_of_pos position hpos
  have hplace : (position % es.length).toNat < es.length := by omega
  have hv : es[(position % es.length).toNat]? = some es[(position % es.length).toNat] :=
    List.getElem?_eq_getElem hplace
  refine ⟨_, hv, ?_⟩
  rw [pick?_eq_some_iff]
  constructor
  · rw [effective_eq_emod hl hu]
    exact Int.toNat_of_nonneg hnonneg
  · exact hv

theorem pick?_of_outside {position : Int} {es : List Json}
    (h : position < -(es.length : Int) ∨ es.length ≤ position) : pick? position es = none := by
  cases hp : pick? position es with
  | none => rfl
  | some p =>
    obtain ⟨place, v⟩ := p
    obtain ⟨hplace, hv⟩ := pick?_eq_some_iff.mp hp
    obtain ⟨hlt, _⟩ := List.getElem?_eq_some_iff.mp hv
    unfold effective at hplace
    split at hplace <;> omega

theorem first_of_pick? {es : List Json} {place : Nat} {v : Json}
    (h : pick? 0 es = some (place, v)) : first (.array es) = v := by
  obtain ⟨hplace, hv⟩ := pick?_eq_some_iff.mp h
  have hzero : place = 0 := by
    unfold effective at hplace
    omega
  subst hzero
  unfold first
  rw [Json.elements, List.head?_eq_getElem?, hv]
  rfl

theorem last_of_pick? {es : List Json} {place : Nat} {v : Json}
    (h : pick? (-1) es = some (place, v)) : last (.array es) = v := by
  obtain ⟨hplace, hv⟩ := pick?_eq_some_iff.mp h
  have hend : place = es.length - 1 := by
    unfold effective at hplace
    omega
  subst hend
  unfold last
  rw [Json.elements, List.getLast?_eq_getElem?, hv]
  rfl

end Collection

namespace Json

theorem depth_ofInt (n : Int) : (ofInt n).depth = 0 := by
  unfold ofInt
  cases Number.ofInt? n <;> rfl

/-- A written integer reads back. -/
theorem parse?_text_ofInt (n : Int) : parse? (ofInt n).text = some (ofInt n) := by
  rw [parse?_text (ordered_ofInt n) (integral_ofInt n), depth_ofInt]
  rfl

theorem toInt64?_ofInt (i : Int64) : (ofInt i.toInt).toInt64? = some i := by
  have hl : -9223372036854775808 ≤ i.toInt := Int64.le_toInt i
  have hu : i.toInt ≤ Int64.maxValue.toInt := Int64.toInt_le i
  have hmax : Int64.maxValue.toInt = 9223372036854775807 := rfl
  have hrange : -9223372036854775808 ≤ i.toInt ∧ i.toInt < 18446744073709551616 := by omega
  have hi : ofInt i.toInt = number (.integer ⟨i.toInt, hrange.1, hrange.2⟩) := by
    simp only [ofInt, Number.ofInt?, Integer.ofInt?, dif_pos hrange, Option.map_some,
      Option.elim_some]
  rw [hi]
  simp only [toInt64?, Number.toInt?, Option.bind_some, if_pos hu, Int64.ofInt_toInt]

end Json

/-- The element at a position, `null` where there is none. -/
def Collection.pick (position : Int) (v : Json) : Json :=
  (pick? position v.elements).elim .null (·.2)

theorem Collection.pick_of_pick? {position : Int} {es : List Json} {place : Nat} {v : Json}
    (h : pick? position es = some (place, v)) : pick position (.array es) = v := by
  unfold pick
  rw [Json.elements, h]
  rfl

theorem Collection.pick_of_none {position : Int} {es : List Json} (h : pick? position es = none) :
    pick position (.array es) = .null := by
  unfold pick
  rw [Json.elements, h]
  rfl

namespace Segment

/-- The call `index(i)`. -/
def indexCall (i : Int64) : Segment := .call "index" [.literal (.ofInt i.toInt)]

def firstCall : Segment := .call "first" []

def lastCall : Segment := .call "last" []

end Segment

namespace Token

variable {r : Resolver} {e : Environment} {a b : Cursor} {es : List Json} {i : Int64}

theorem step_index_of_pick? (ha : a.value = .array es) {place : Nat} {v : Json}
    (h : Collection.pick? i.toInt es = some (place, v)) :
    (ofSegment (.index i)).step r e a =
      .ok ⟨a.path ++ Path.indexText place, .element place, v⟩ := by
  simp only [ofSegment, step, ha, h]

theorem step_index_of_none (ha : a.value = .array es)
    (h : Collection.pick? i.toInt es = none) :
    (ofSegment (.index i)).step r e a = .error (.noElement i.toInt a.path) := by
  simp only [ofSegment, step, ha, h]

/-- A position in brackets leads on from an array only, and from there to an element. -/
theorem pick?_of_step_index (h : (ofSegment (.index i)).step r e a = .ok b) :
    ∃ es place, a.value = .array es ∧ Collection.pick? i.toInt es = some (place, b.value) := by
  have hleads : Leads r e a (.index i) b := leads_of_step h
  cases hleads with
  | index hp hv =>
    cases ha : a.value with
    | array es =>
      rw [ha] at hp hv
      exact ⟨es, _, rfl, Collection.pick?_eq_some_iff.mpr ⟨hp, hv⟩⟩
    | _ => simp [ha, Json.element?, Json.elements] at hv

section
variable (he : e.configuration.registry = .standard)
include he

theorem step_indexCall : (ofSegment (.indexCall i)).step r e a =
    .ok { a with value := Collection.pick i.toInt a.value } := by
  have hlookup : e.configuration.registry.lookup "index" = .ok .index := by
    rw [he]
    cbv
  have hoperand : (Argument.literal (.ofInt i.toInt)).operandAt r .index e a.value 0 =
      .whole (.ok (.ofInt i.toInt)) :=
    Argument.operandAt_of_parse? (Json.parse?_text_ofInt i.toInt) ..
  have hindex : Collection.index a.value [.whole (.ok (.ofInt i.toInt))] =
      .ok (Collection.pick i.toInt a.value) := by
    simp only [Collection.index, Operand.value, bind, Except.bind, Json.toInt64?_ofInt]
    rfl
  unfold Segment.indexCall
  rw [step_call, hlookup]
  simp only [Except.bind, List.mapIdx_cons, List.mapIdx_nil, hoperand, Function.invoke, hindex]
  rfl

theorem step_firstCall : (ofSegment .firstCall).step r e a =
    .ok { a with value := Collection.first a.value } := by
  have hlookup : e.configuration.registry.lookup "first" = .ok .first := by
    rw [he]
    cbv
  unfold Segment.firstCall
  rw [step_call, hlookup]
  rfl

theorem step_lastCall : (ofSegment .lastCall).step r e a =
    .ok { a with value := Collection.last a.value } := by
  have hlookup : e.configuration.registry.lookup "last" = .ok .last := by
    rw [he]
    cbv
  unfold Segment.lastCall
  rw [step_call, hlookup]
  rfl

/-- Where a position in brackets leads on, the call of `index` leads to the same value. -/
theorem indexCall_of_step_index (h : (ofSegment (.index i)).step r e a = .ok b) :
    ∃ b', (ofSegment (.indexCall i)).step r e a = .ok b' ∧ SameValue b b' := by
  obtain ⟨es, place, ha, hp⟩ := pick?_of_step_index h
  have hpick : Collection.pick i.toInt a.value = b.value := by
    rw [ha, Collection.pick_of_pick? hp]
  exact ⟨_, step_indexCall he, hpick.symm⟩

theorem firstCall_of_step_index (h : (ofSegment (.index 0)).step r e a = .ok b) :
    ∃ b', (ofSegment .firstCall).step r e a = .ok b' ∧ SameValue b b' := by
  obtain ⟨es, place, ha, hp⟩ := pick?_of_step_index h
  have hfirst : Collection.first a.value = b.value := by
    rw [ha]
    exact Collection.first_of_pick? hp
  exact ⟨_, step_firstCall he, hfirst.symm⟩

theorem lastCall_of_step_index (h : (ofSegment (.index (-1))).step r e a = .ok b) :
    ∃ b', (ofSegment .lastCall).step r e a = .ok b' ∧ SameValue b b' := by
  obtain ⟨es, place, ha, hp⟩ := pick?_of_step_index h
  have hlast : Collection.last a.value = b.value := by
    rw [ha]
    exact Collection.last_of_pick? hp
  exact ⟨_, step_lastCall he, hlast.symm⟩

end

end Token

namespace Plan

/-- In every path a call of `index` finds what the position in brackets finds, and so do `first` and
`last` for the positions that they name. In an array of `n` elements a position from `-n` up to `n`
means its residue modulo `n`; at any other the brackets fail and the call gives `null`, as `first`
and `last` do in an empty array. -/
theorem picks_agree (symbol : Root) (before : List Segment) (i : Int64) (d : Json) :
    let reads (ss : List Segment) := (ofPath ⟨symbol, before ++ ss⟩).read .standard d
    (∀ (after : List Segment) (v : Json), reads (.index i :: after) = .ok v →
      reads (.indexCall i :: after) = .ok v ∧
      (i = 0 → reads (.firstCall :: after) = .ok v) ∧
      (i = -1 → reads (.lastCall :: after) = .ok v)) ∧
    ∀ es, reads [] = .ok (.array es) →
      (-(es.length : Int) ≤ i.toInt → i.toInt < es.length →
        ∃ v, es[(i.toInt % es.length).toNat]? = some v ∧
          reads [.index i] = .ok v ∧ reads [.indexCall i] = .ok v) ∧
      (i.toInt < -(es.length : Int) ∨ es.length ≤ i.toInt →
        (∃ err, reads [.index i] = .error err ∧ err.kind = .pathNotFound) ∧
        reads [.indexCall i] = .ok .null) ∧
      (es = [] → reads [.firstCall] = .ok .null ∧ reads [.lastCall] = .ok .null) := by
  intro reads
  have hreads (ss : List Segment) :
      reads ss = (ofPath ⟨symbol, before ++ ss⟩).value d d .standard :=
    read_eq_value _ d .standard
  constructor
  · intro after v h
    rw [hreads] at h
    refine ⟨?_, ?_, ?_⟩
    · rw [hreads]
      exact value_replace symbol before after (fun _ _ => Token.indexCall_of_step_index rfl) h
    · intro hi
      subst hi
      rw [hreads]
      exact value_replace symbol before after (fun _ _ => Token.firstCall_of_step_index rfl) h
    · intro hi
      subst hi
      rw [hreads]
      exact value_replace symbol before after (fun _ _ => Token.lastCall_of_step_index rfl) h
  · intro es h
    rw [hreads, List.append_nil] at h
    obtain ⟨a, hreach, ha⟩ := exists_place_of_value h
    have hstep (s : Segment) : reads [s] =
        ((Token.ofSegment s).step Closure.value ⟨.standard, d⟩ a).map (·.value) := by
      rw [hreads]
      exact value_concat symbol before s hreach
    have hcall : reads [.indexCall i] = .ok (Collection.pick i.toInt (.array es)) := by
      rw [hstep, Token.step_indexCall rfl, ha]
      rfl
    refine ⟨?_, ?_, ?_⟩
    · intro hl hu
      obtain ⟨v, hv, hp⟩ := Collection.pick?_of_inside hl hu
      refine ⟨v, hv, ?_, ?_⟩
      · rw [hstep, Token.step_index_of_pick? ha hp]
        rfl
      · rw [hcall, Collection.pick_of_pick? hp]
    · intro houtside
      have hp := Collection.pick?_of_outside houtside
      constructor
      · refine ⟨.noElement i.toInt a.path, ?_, rfl⟩
        rw [hstep, Token.step_index_of_none ha hp]
        rfl
      · rw [hcall, Collection.pick_of_none hp]
    · intro hempty
      subst hempty
      constructor
      · rw [hstep, Token.step_firstCall rfl, ha]
        rfl
      · rw [hstep, Token.step_lastCall rfl, ha]
        rfl

/-- `$.a[-1].length()` in `{"a": [true, "xy"]}`, and the least position there is. -/
theorem picks_agree_last :
    let d : Json := .object [("a", .array [.bool true, .string "xy"])]
    let reads (ss : List Segment) :=
      (ofPath ⟨.document, [.property "a"] ++ ss⟩).read .standard d
    reads [.index (-1), .call "length" []] = .ok (.ofInt 2) ∧
      reads [.lastCall, .call "length" []] = .ok (.ofInt 2) ∧
      reads [.indexCall (-1), .call "length" []] = .ok (.ofInt 2) ∧
      reads [.indexCall (-2)] = .ok (.bool true) ∧
      (∃ err, reads [.index Int64.minValue] = .error err ∧ err.kind = .pathNotFound) ∧
      reads [.indexCall Int64.minValue] = .ok .null := by
  intro d reads
  have hlength : reads [.index (-1), .call "length" []] = .ok (.ofInt 2) := by
    simp only [reads, d]
    cbv
  have ha : reads [] = .ok (.array [.bool true, .string "xy"]) := by cbv
  have hlast := (picks_agree .document [.property "a"] (-1) d).1 _ _ hlength
  have hinside := ((picks_agree .document [.property "a"] (-2) d).2 _ ha).1 (by decide) (by decide)
  have houtside := ((picks_agree .document [.property "a"] Int64.minValue d).2 _ ha).2.1
    (.inl (by decide))
  obtain ⟨v, hv, _, hcall⟩ := hinside
  cases hv
  exact ⟨hlength, hlast.2.2 rfl, hlast.1, hcall, houtside.1, houtside.2⟩

end Plan
end JsonPath
