import JsonPath.Proofs.Derivation

/-! Every text that the grammar of paths derives is read as the path that it is derived with. Blanks
belong to what stands before them when they are read, but not always when they are derived, so texts
are compared from their first character on that is no blank. -/
namespace JsonPath

open Reader

namespace Path

def trim (s : List Char) : List Char := s.dropWhile Text.isBlank

theorem trim_append {w : List Char} (hw : Blanks Text.isBlank w) (s : List Char) :
    trim (w ++ s) = trim s :=
  List.dropWhile_append_of_pos hw

theorem trim_cons {c : Char} (hc : Text.isBlank c = false) (s : List Char) :
    trim (c :: s) = c :: s := dropWhile_of_not_blank hc s

theorem trim_trim (s : List Char) : trim (trim s) = trim s := by
  induction s with
  | nil => rfl
  | cons c s ih =>
    cases hc : Text.isBlank c with
    | true =>
      have h : trim (c :: s) = trim s := List.dropWhile_cons_of_pos hc
      rw [h, ih]
    | false => rw [trim_cons hc, trim_cons hc]

theorem spaced_apply {α : Type} (r : Reader α) (s : List Char) :
    spaced r s = (r (trim s)).map fun q => (q.1, trim q.2) := padded_apply ..

theorem spaced_trim {α : Type} (r : Reader α) (s : List Char) : spaced r (trim s) = spaced r s := by
  rw [spaced_apply, spaced_apply, trim_trim]

theorem trim_mark {c : Char} (hc : Text.isBlank c = false) {u : List Char} (hu : Mark c u)
    (rest : List Char) : ∃ w, Blanks Text.isBlank w ∧ trim (u ++ rest) = c :: (w ++ rest) := by
  obtain ⟨hw, hw'⟩ := hu
  exact ⟨_, hw', by rw [List.append_assoc, trim_append hw, List.cons_append, trim_cons hc]⟩

/-- The first character that is no blank, if there is one, is among the given ones. -/
def Before (cs : List Char) (s : List Char) : Prop := ∀ c ∈ (trim s).head?, c ∈ cs

theorem Before.of_trim_eq {cs s t : List Char} (h : Before cs s) (hst : trim t = trim s) :
    Before cs t := by
  intro c hc
  rw [hst] at hc
  exact h c hc

theorem before_mark {c : Char} {cs u : List Char} (hc : Text.isBlank c = false) (hmem : c ∈ cs)
    (hu : Mark c u) (rest : List Char) : Before cs (u ++ rest) := by
  obtain ⟨w, _, htrim⟩ := trim_mark hc hu rest
  intro d hd
  rw [htrim] at hd
  cases hd
  exact hmem

/-- No character of a kind that has no blanks stands first, unless it is among the given ones. -/
theorem Before.head_eq_false {cs s : List Char} (h : Before cs s) {p : Char → Bool}
    (hblank : ∀ c, p c = true → Text.isBlank c = false) (hcs : ∀ c ∈ cs, p c = false) :
    ∀ c ∈ s.head?, p c = false := by
  intro c hc
  cases s with
  | nil => cases hc
  | cons d s =>
    cases hc
    by_contra hp
    have hp : p c = true := by simpa using hp
    have hmem : c ∈ cs := h c (by rw [trim_cons (hblank c hp)]; rfl)
    rw [hcs c hmem] at hp
    cases hp

theorem Before.head_ne {cs s : List Char} (h : Before cs s) {d : Char}
    (hd : Text.isBlank d = false) (hmem : d ∉ cs) : ∀ c ∈ s.head?, c ≠ d := by
  have hfalse := h.head_eq_false (p := (· == d)) (by simp [hd]) fun c hc => by
    rw [beq_eq_false_iff_ne]
    rintro rfl
    exact hmem hc
  exact fun c hc => by simpa using hfalse c hc

theorem Before.mono {cs ds s : List Char} (h : Before cs s) (hcs : cs ⊆ ds) : Before ds s :=
  fun c hc => hcs (h c hc)

end Path

namespace Reader

open JsonPath.Path

variable {α : Type} {cs : List Char} {r item : Reader α} {G H : Phrase α}

/-- The texts of a phrase are read up to the next character that is no blank. -/
def Reads (cs : List Char) (r : Reader α) (G : Phrase α) : Prop :=
  ∀ (t : List Char) (a : α) (rest : List Char), G t a → Before cs rest →
    r (trim (t ++ rest)) = some (a, trim rest)

/-- The texts of a phrase are read, be it with blanks behind them or not. -/
def Accepts (cs : List Char) (r : Reader α) (G : Phrase α) : Prop :=
  ∀ (t : List Char) (a : α) (rest : List Char), G t a → Before cs rest →
    ∃ u, r (trim (t ++ rest)) = some (a, u) ∧ trim u = trim rest

theorem Accepts.spaced (h : r.Accepts cs G) : (spaced r).Reads cs (Padded Text.isBlank G) := by
  rintro _ _ rest ⟨hw, ht, hw'⟩ hrest
  have htrim := trim_append hw' rest
  obtain ⟨u, hu, hutrim⟩ := h _ _ _ ht (hrest.of_trim_eq htrim)
  rw [spaced_trim, spaced_apply, List.append_assoc, trim_append hw, List.append_assoc, hu,
    Option.map_some, hutrim, htrim]

theorem mark_reads {c : Char} (hc : Text.isBlank c = false) {u : List Char} (hu : Mark c u)
    (rest : List Char) : Path.spaced (char c) (trim (u ++ rest)) = some ((), trim rest) := by
  obtain ⟨w, hw, htrim⟩ := trim_mark hc hu rest
  rw [spaced_trim, spaced_apply, htrim, char_self, Option.map_some, trim_append hw]

theorem mark_ne {c d : Char} (hd : Text.isBlank d = false) (h : d ≠ c) (s : List Char) :
    Path.spaced (char c) (d :: s) = none := by
  rw [spaced_apply, trim_cons hd, char_ne h, Option.map_none]

theorem comma_reads {u : List Char} (hu : Mark ',' u) (rest : List Char) :
    comma (trim (u ++ rest)) = some ((), trim rest) := mark_reads (by decide) hu rest

/-- What stands before the closing mark is read, and the marks with it. -/
theorem enclosed_reads {opening closing : Char} (ho : Text.isBlank opening = false)
    (hc : Text.isBlank closing = false) (h : ∀ {t u : List Char} {a : α}, G t a →
      Mark closing u → ∀ rest, r (trim (t ++ (u ++ rest))) = some (a, trim (u ++ rest)))
    {t : List Char} {a : α} (ht : Enclosed opening closing G t a) (rest : List Char) :
    enclosed opening closing r (trim (t ++ rest)) = some (a, trim rest) := by
  obtain ⟨hu, ht, hu'⟩ := ht
  simp only [enclosed, List.append_assoc, seqLeft_apply, seqRight_apply, mark_reads ho hu,
    Option.bind_some, h ht hu', mark_reads hc hu', Option.map_some]

section Lists

theorem repeatUpTo_separated (hitem : item.Reads cs G) (hcs : ',' ∈ cs) {t : List Char}
    {as : List α} (ht : Separated G t as) {rest : List Char} (hrest : Before cs rest)
    (hstop : (comma *> item) (trim rest) = none) {u : List Char} (hu : Mark ',' u) {n : Nat}
    (hn : as.length ≤ n) :
    repeatUpTo (comma *> item) n (trim (u ++ (t ++ rest))) = (as, trim rest) := by
  induction ht generalizing u n with
  | @one t a h =>
    obtain ⟨n, rfl⟩ : ∃ m, n = m + 1 := ⟨n - 1, by simp at hn; omega⟩
    have hread : (comma *> item) (trim (u ++ (t ++ rest))) = some (a, trim rest) := by
      rw [seqRight_apply, comma_reads hu, Option.bind_some, hitem t a rest h hrest]
    rw [repeatUpTo, hread]
    simp only [repeatUpTo_of_none hstop]
  | @cons t v ts a as h hv hs ih =>
    obtain ⟨n, rfl⟩ : ∃ m, n = m + 1 := ⟨n - 1, by simp at hn; omega⟩
    have hread : (comma *> item) (trim (u ++ (t ++ (v ++ ts) ++ rest))) =
        some (a, trim (v ++ (ts ++ rest))) := by
      rw [seqRight_apply, comma_reads hu, Option.bind_some, List.append_assoc, List.append_assoc]
      exact hitem t a _ h (before_mark (by decide) hcs hv _)
    rw [repeatUpTo, hread]
    simp only [ih hv (n := n) (by simpa using hn)]

theorem sepBy1_reads (hitem : item.Reads cs G) (hcs : ',' ∈ cs) {t : List Char} {as : List α}
    (ht : Separated G t as) {rest : List Char} (hrest : Before cs rest)
    (hstop : (comma *> item) (trim rest) = none) :
    sepBy1 item comma (trim (t ++ rest)) = some (as, trim rest) := by
  cases ht with
  | @one t a h =>
    simp only [sepBy1, bind_apply, hitem t a rest h hrest, Option.bind_some, repeated,
      repeatUpTo_of_none hstop, pure_apply]
  | @cons t v ts a as h hv hs =>
    have hfirst : item (trim (t ++ (v ++ ts) ++ rest)) = some (a, trim (v ++ (ts ++ rest))) := by
      rw [List.append_assoc, List.append_assoc]
      exact hitem t a _ h (before_mark (by decide) hcs hv _)
    have hlength : as.length ≤ (trim (v ++ (ts ++ rest))).length := by
      obtain ⟨w, _, htrim⟩ := trim_mark (by decide) hv (ts ++ rest)
      have := hs.length_le
      simp only [htrim, List.length_cons, List.length_append]
      omega
    simp only [sepBy1, bind_apply, hfirst, Option.bind_some, repeated,
      repeatUpTo_separated hitem hcs hs hrest hstop hv hlength, pure_apply]

variable {closing : Char}

theorem sepBy_reads (hitem : item.Reads cs G) (hcs : ',' ∈ cs) (hc : Text.isBlank closing = false)
    (hclosing : closing ∈ cs) (hne : closing ≠ ',') (hstop : ∀ s, item (closing :: s) = none)
    {t u : List Char} {as : List α} (ht : Listed G t as) (hu : Mark closing u) (rest : List Char) :
    sepBy item comma (trim (t ++ (u ++ rest))) = some (as, trim (u ++ rest)) := by
  obtain ⟨w, _, htrim⟩ := trim_mark hc hu rest
  cases ht with
  | none =>
    simp only [List.nil_append, sepBy, sepBy1, orElse_apply, bind_apply, htrim, hstop,
      Option.bind_none, Option.none_or, pure_apply]
  | some h =>
    have hcomma : (comma *> item) (trim (u ++ rest)) = none := by
      rw [seqRight_apply, htrim, comma, mark_ne hc hne, Option.bind_none]
    simp only [sepBy, orElse_apply,
      sepBy1_reads hitem hcs h (before_mark hc hclosing hu rest) hcomma, Option.some_or]

theorem sepEndBy_reads (hitem : item.Reads cs G) (hcs : ',' ∈ cs)
    (hc : Text.isBlank closing = false) (hclosing : closing ∈ cs) (hne : closing ≠ ',')
    (hstop : ∀ s, item (closing :: s) = none) {t u : List Char} {as : List α} (ht : Items G t as)
    (hu : Mark closing u) (rest : List Char) :
    sepEndBy item comma (trim (t ++ (u ++ rest))) = some (as, trim (u ++ rest)) := by
  obtain ⟨w, _, htrim⟩ := trim_mark hc hu rest
  have hcomma : comma (trim (u ++ rest)) = none := by rw [htrim, comma, mark_ne hc hne]
  cases ht with
  | listed h =>
    cases h with
    | none =>
      simp only [List.nil_append, sepEndBy, sepBy1, orElse_apply, seqLeft_apply, bind_apply, htrim,
        hstop, Option.bind_none, Option.none_or, pure_apply]
    | some h =>
      have hnone : (comma *> item) (trim (u ++ rest)) = none := by
        rw [seqRight_apply, hcomma, Option.bind_none]
      simp only [sepEndBy, orElse_apply, seqLeft_apply,
        sepBy1_reads hitem hcs h (before_mark hc hclosing hu rest) hnone, Option.bind_some,
        optional_apply, hcomma, Option.map_none, Option.none_or, Option.map_some, Option.some_or]
  | @trailing t v as h hv =>
    have hnone : (comma *> item) (trim (v ++ (u ++ rest))) = none := by
      rw [seqRight_apply, comma_reads hv, Option.bind_some, htrim, hstop]
    simp only [sepEndBy, List.append_assoc, orElse_apply, seqLeft_apply,
      sepBy1_reads hitem hcs h (before_mark (by decide) hcs hv _) hnone, Option.bind_some,
      optional_apply, comma_reads hv, Option.map_some, Option.some_or]

end Lists
end Reader
section Strings

theorem Text.hexUnit?_eq_some {a b c d : Char} {i j k l : Nat} (ha : Path.HexDigit a i)
    (hb : Path.HexDigit b j) (hc : Path.HexDigit c k) (hd : Path.HexDigit d l) :
    Text.hexUnit? a b c d = some (((i * 16 + j) * 16 + k) * 16 + l) := by
  rw [← Text.hexDigit?_eq_some_iff] at ha hb hc hd
  simp only [Text.hexUnit?, ha, hb, hc, hd, Option.bind_eq_bind, Option.bind_some, Option.pure_def,
    Option.some.injEq]
  omega

namespace Path

theorem body_charText {quote x : Char} {t : List Char} (h : CharText quote t x)
    (rest : List Char) :
    (dialect quote).body (t ++ rest) =
      ((dialect quote).body rest).map fun r => (x :: r.1, r.2) := by
  cases h with
  | raw hq hs => exact Text.Dialect.body_bare _ hq hs rfl rest
  | escape h =>
    cases h with
    | @short c x h =>
      have hall : ∀ e ∈ escapes, e.1 ≠ 'u' ∧ (dialect '"').escape? e.1 = some e.2 := by decide
      obtain ⟨hu, hx⟩ := hall _ h
      exact Text.Dialect.body_escape (dialect quote) hu hx rest
    | @unicode a b c d i j k l n ha hb hc hd hn hs =>
      have hlt : i < 16 ∧ j < 16 ∧ k < 16 ∧ l < 16 := ⟨ha.1, hb.1, hc.1, hd.1⟩
      have hvalid : n.isValidChar := by
        unfold Nat.isValidChar
        omega
      have hunit : Text.hexUnit? a b c d = some n := hn ▸ Text.hexUnit?_eq_some ha hb hc hd
      exact Text.Dialect.body_unicode _ hunit (if_pos hvalid) rest

theorem readString_stringText {t : List Char} {k : String} (h : StringText t k)
    (rest : List Char) : readString (t ++ rest) = some (k, rest) := by
  obtain ⟨hq, h⟩ := h
  rename_i quote t cs
  have hslash : quote ≠ '\\' := by rcases hq with rfl | rfl <;> decide
  have hbody : (dialect quote).body (t ++ quote :: rest) = some (cs, rest) := by
    induction h with
    | nil => exact Text.Dialect.body_quote _ hslash rest
    | cons h _ ih =>
      rw [List.append_assoc, body_charText h, ih]
      rfl
  have hread : (dialect quote).read (quote :: (t ++ quote :: rest)) = some (.ofList cs, rest) := by
    rw [Text.Dialect.read, if_pos (show quote = (dialect quote).quote from rfl), hbody]
    rfl
  have htext : quote :: (t ++ [quote]) ++ rest = quote :: (t ++ quote :: rest) := by simp
  rw [htext, readString, orElse_apply]
  rcases hq with rfl | rfl
  · rw [hread, Option.some_or]
  · rw [hread]
    rfl

theorem StringText.eq_cons {t : List Char} {k : String} (h : StringText t k) :
    ∃ c cs, t = c :: cs ∧ (c = '\'' ∨ c = '"') := by
  obtain ⟨hq, _⟩ := h
  exact ⟨_, _, rfl, hq⟩

theorem readString_accepts (cs : List Char) : readString.Accepts cs StringText := by
  intro t k rest h _
  obtain ⟨c, cs, rfl, hc⟩ := h.eq_cons
  have hblank : Text.isBlank c = false := by rcases hc with rfl | rfl <;> decide
  refine ⟨rest, ?_, rfl⟩
  rw [List.cons_append, trim_cons hblank]
  exact readString_stringText h rest

end Path
end Strings

section Numbers

theorem isBlank_of_isDigit {c : Char} (h : c.isDigit = true) : Text.isBlank c = false := by
  have hrange := Char.isDigit_iff_toNat.mp h
  simp only [Char.reduceToNat] at hrange
  exact Text.isBlank_eq_false (by omega) (by omega)

theorem ne_of_isDigit {c d : Char} (h : c.isDigit = true) (hd : d.isDigit = false) : c ≠ d := by
  rintro rfl
  rw [h] at hd
  cases hd

namespace Path

theorem Digits.eq_cons {ds : List Char} (h : Digits ds) :
    ∃ c cs, ds = c :: cs ∧ c.isDigit = true := by
  obtain ⟨hne, hds⟩ := h
  obtain ⟨c, cs, rfl⟩ := List.exists_cons_of_ne_nil hne
  exact ⟨c, cs, rfl, hds c List.mem_cons_self⟩

theorem minus_signText {s ds : List Char} {negative : Bool} (hs : SignText s negative)
    (hds : Digits ds) (rest : List Char) :
    Numeral.minus (s ++ (ds ++ rest)) = some (negative, ds ++ rest) := by
  cases hs with
  | none =>
    obtain ⟨c, cs, rfl, hc⟩ := hds.eq_cons
    simp [Numeral.minus, char_ne (ne_of_isDigit hc (d := '-') (by decide))]
  | minus => simp [Numeral.minus]

theorem readExponent_exponentText {e : List Char} {x : Numeral.Exponent}
    (h : ExponentText e (some x)) {rest : List Char}
    (hrest : ∀ c ∈ rest.head?, c.isDigit = false) :
    Numeral.readExponent (e ++ rest) = some (x, rest) := by
  cases h with
  | @some c s ds negative hc hs hds =>
    have hdigits : Numeral.digits (ds ++ rest) = some (ds, rest) := many1_append hds.1 hds.2 hrest
    have hletter (u : List Char) : (char 'e' <|> char 'E') (c :: u) = some ((), u) := by
      rcases hc with rfl | rfl <;> rfl
    have hsign : (char '-' *> pure true <|> char '+' *> pure false <|> pure false : Reader Bool)
        (s ++ (ds ++ rest)) = some (negative, ds ++ rest) := by
      cases hs with
      | sign h =>
        cases h with
        | none =>
          obtain ⟨c, cs, rfl, hc⟩ := hds.eq_cons
          simp [char_ne (ne_of_isDigit hc (d := '-') (by decide)),
            char_ne (ne_of_isDigit hc (d := '+') (by decide))]
        | minus => simp
      | plus => simp [char_ne]
    simp only [Numeral.readExponent, List.cons_append, List.append_assoc, bind_apply, hletter,
      Option.bind_some, hsign, hdigits, pure_apply]

theorem char_of_head {c : Char} {s : List Char} (h : ∀ d ∈ s.head?, d ≠ c) : char c s = none := by
  cases s with
  | nil => rfl
  | cons d s => exact char_ne (h d rfl) s

/-- What a number starts with. -/
def NumberStart (c : Char) : Prop := c = '-' ∨ c.isDigit = true

theorem NumberStart.isBlank {c : Char} (h : NumberStart c) : Text.isBlank c = false := by
  rcases h with rfl | h
  · decide
  · exact isBlank_of_isDigit h

theorem NumberStart.ne {c d : Char} (h : NumberStart c) (hd : d ≠ '-' ∧ d.isDigit = false) :
    c ≠ d := by
  rcases h with rfl | h
  · exact hd.1.symm
  · exact ne_of_isDigit h hd.2

theorem signed_eq_cons {s ds : List Char} {negative : Bool} (hs : SignText s negative)
    (hds : Digits ds) (rest : List Char) :
    ∃ c cs, s ++ (ds ++ rest) = c :: cs ∧ NumberStart c := by
  cases hs with
  | none =>
    obtain ⟨c, cs, rfl, hc⟩ := hds.eq_cons
    exact ⟨c, _, rfl, .inr hc⟩
  | minus => exact ⟨'-', _, rfl, .inl rfl⟩

theorem NumberText.eq_cons {t : List Char} {x : Number} (h : NumberText t x) :
    ∃ c cs, t = c :: cs ∧ NumberStart c := by
  obtain ⟨⟨hs, hds, _, _⟩, _⟩ := h
  exact signed_eq_cons hs hds _

theorem IndexText.eq_cons {t : List Char} {i : Int64} (h : IndexText t i) :
    ∃ c cs, t = c :: cs ∧ NumberStart c := by
  obtain ⟨hs, hds, _⟩ := h
  have hcons := signed_eq_cons hs hds []
  rwa [List.append_nil] at hcons

theorem numeral_read {t rest : List Char} {n : Numeral} (h : NumeralText t n)
    (hrest : Numeral.Ends rest) : Numeral.read (t ++ rest) = some (n, rest) := by
  obtain ⟨hs, hds, hf, he⟩ := h
  rename_i s ds f e negative fraction exponent
  have hexponent : optional Numeral.readExponent (e ++ rest) = some (exponent, rest) := by
    cases exponent with
    | none =>
      cases he
      have hlower := char_of_head fun d hd => (hrest d hd).2.2.1
      have hupper := char_of_head fun d hd => (hrest d hd).2.2.2
      simp only [List.nil_append, optional_apply, Numeral.readExponent, bind_apply, orElse_apply,
        hlower, hupper, Option.none_or, Option.bind_none, Option.map_none]
    | some x =>
      have hx := readExponent_exponentText he fun c hc => (hrest c hc).1
      simp only [optional_apply, hx, Option.map_some, Option.some_or]
  have hbeforeExponent : ∀ c ∈ (e ++ rest).head?, c.isDigit = false ∧ c ≠ '.' := by
    intro c hc
    cases he with
    | none => exact ⟨(hrest c hc).1, (hrest c hc).2.1⟩
    | some hletter =>
      cases hc
      rcases hletter with rfl | rfl <;> decide
  have hfraction : optional (char '.' *> Numeral.digits) (f ++ (e ++ rest)) =
      some (fraction, e ++ rest) := by
    cases hf with
    | none =>
      have hpoint := char_of_head fun d hd => (hbeforeExponent d hd).2
      simp only [List.nil_append, optional_apply, seqRight_apply, hpoint, Option.bind_none,
        Option.map_none, Option.none_or]
    | @some ds h =>
      have hdigits : many1 Char.isDigit (ds ++ (e ++ rest)) = some (ds, e ++ rest) :=
        many1_append h.1 h.2 fun c hc => (hbeforeExponent c hc).1
      simp only [List.cons_append, optional_apply, seqRight_apply, char_self, Option.bind_some,
        Numeral.digits, hdigits, Option.map_some, Option.some_or]
  have hbeforeFraction : ∀ c ∈ (f ++ (e ++ rest)).head?, c.isDigit = false := by
    intro c hc
    cases hf with
    | none => exact (hbeforeExponent c hc).1
    | some h => cases hc; decide
  have hdigits : Numeral.digits (ds ++ (f ++ (e ++ rest))) = some (ds, f ++ (e ++ rest)) :=
    many1_append hds.1 hds.2 hbeforeFraction
  simp only [Numeral.read, List.append_assoc, bind_apply, minus_signText hs hds, Option.bind_some,
    hdigits, hfraction, hexponent, pure_apply]

theorem number_read {t rest : List Char} {x : Number} (h : NumberText t x)
    (hrest : Numeral.Ends rest) : Number.read (t ++ rest) = some (x, rest) := by
  obtain ⟨h, hx⟩ := h
  simp only [Number.read, numeral_read h hrest, Option.bind_eq_bind, Option.bind_some, hx]
  rfl

theorem readIndex_indexText {t rest : List Char} {i : Int64} (h : IndexText t i)
    (hrest : ∀ c ∈ rest.head?, c.isDigit = false) : readIndex (t ++ rest) = some (i, rest) := by
  obtain ⟨hs, hds, hi⟩ := h
  rename_i s ds negative
  have hdigits : Numeral.digits (ds ++ rest) = some (ds, rest) := many1_append hds.1 hds.2 hrest
  have hbounds : Int64.minValue.toInt ≤ i.toInt ∧ i.toInt ≤ Int64.maxValue.toInt :=
    ⟨i.minValue_le_toInt, i.toInt_le⟩
  simp only [readIndex, List.append_assoc, minus_signText hs hds, Option.bind_eq_bind,
    Option.bind_some, hdigits, Numeral.natOfDigits, ← hi, hbounds, and_self, if_true,
    Int64.ofInt_toInt]
  rfl

end Path
end Numbers
section Literals

namespace Path

/-- What can stand behind a literal. -/
def closers : List Char := [',', ']', '}', ')']

theorem Before.ends {s : List Char} (h : Before closers s) : Numeral.Ends s := by
  intro c hc
  refine ⟨h.head_eq_false (fun _ => isBlank_of_isDigit) (by simp [closers]) c hc, ?_, ?_, ?_⟩
  · exact h.head_ne (by decide) (by decide) c hc
  · exact h.head_ne (by decide) (by decide) c hc
  · exact h.head_ne (by decide) (by decide) c hc

variable {item : Reader Json}

/-- Only three letters begin a literal that is a word. -/
theorem readBare_of_ne {c : Char} (hn : c ≠ 'n') (ht : c ≠ 't') (hf : c ≠ 'f') (s : List Char) :
    readBare item (c :: s) = (Json.number <$> Number.read <|> Json.string <$> readString <|>
      Json.array <$> enclosed '[' ']' (sepEndBy item comma) <|>
      Json.object <$> Dictionary.ofList <$>
        enclosed '{' '}' (sepEndBy (readMember item) comma) : Reader Json) (c :: s) := by
  simp only [readBare, orElse_apply, seqRight_apply, word_of_ne hn, word_of_ne ht, word_of_ne hf,
    Option.bind_none, Option.none_or]

theorem readBare_of_opening {c : Char} (hc : c = '[' ∨ c = '{') (s : List Char) :
    readBare item (c :: s) = (Json.array <$> enclosed '[' ']' (sepEndBy item comma) <|>
      Json.object <$> Dictionary.ofList <$>
        enclosed '{' '}' (sepEndBy (readMember item) comma) : Reader Json) (c :: s) := by
  have hne : c ≠ 'n' ∧ c ≠ 't' ∧ c ≠ 'f' := by rcases hc with rfl | rfl <;> decide
  have hnumber : Number.read (c :: s) = none := by rcases hc with rfl | rfl <;> rfl
  have hstring : readString (c :: s) = none := by rcases hc with rfl | rfl <;> rfl
  rw [readBare_of_ne hne.1 hne.2.1 hne.2.2]
  simp only [orElse_apply, map_apply _ Number.read, map_apply _ readString, hnumber, hstring,
    Option.map_none, Option.none_or]

theorem Enclosed.trim_eq_cons {α : Type} {opening closing : Char} {G : Phrase α} {t : List Char}
    {a : α} (h : Enclosed opening closing G t a) (ho : Text.isBlank opening = false)
    (rest : List Char) : ∃ s, trim (t ++ rest) = opening :: s := by
  obtain ⟨hu, _, _⟩ := h
  obtain ⟨w, _, htrim⟩ := trim_mark ho hu _
  exact ⟨_, by rw [List.append_assoc, htrim]⟩

theorem readMember_reads {G : Phrase Json} (hitem : item.Reads closers G) :
    (readMember item).Reads closers (MemberText G) := by
  rintro _ _ rest ⟨hk, hu, ht⟩ hrest
  rename_i k u t name v
  have hname := (readString_accepts [':']).spaced
  have hcolon (s : List Char) : Before [':'] (u ++ s) := before_mark (by decide) (by simp) hu s
  simp only [readMember, bind_apply, List.append_assoc, hname _ _ _ hk (hcolon _),
    Option.bind_some, mark_reads (c := ':') (by decide) hu, hitem _ _ _ ht hrest, pure_apply]

/-- An array or an object, by the items in it. -/
theorem container_reads {α : Type} {r : Reader α} {G : Phrase α} {opening closing : Char}
    (hr : r.Reads closers G) (ho : Text.isBlank opening = false) (hc : closing = ']' ∨ closing = '}')
    (hstop : ∀ s, r (closing :: s) = none) {t : List Char} {as : List α}
    (h : Enclosed opening closing (Items G) t as) (rest : List Char) :
    ∃ s, trim (t ++ rest) = opening :: s ∧
      enclosed opening closing (sepEndBy r comma) (opening :: s) = some (as, trim rest) := by
  have hclosing : Text.isBlank closing = false ∧ closing ∈ closers ∧ closing ≠ ',' := by
    rcases hc with rfl | rfl <;> decide
  have hread := enclosed_reads ho hclosing.1 (fun ht hu rest => sepEndBy_reads hr (by decide)
    hclosing.1 hclosing.2.1 hclosing.2.2 hstop ht hu rest) h rest
  obtain ⟨s, hs⟩ := h.trim_eq_cons ho rest
  rw [hs] at hread
  exact ⟨s, hs, hread⟩

theorem readBare_bareText {n : Nat} (hitem : item.Reads closers fun t v =>
    t.length < n ∧ LiteralText t v) (hstop : ∀ s, item (']' :: s) = none) {t : List Char}
    {v : Json} (h : BareText t v) (hlength : t.length ≤ n) {rest : List Char}
    (hrest : Before closers rest) :
    ∃ u, readBare item (trim (t ++ rest)) = some (v, u) ∧ trim u = trim rest := by
  cases h with
  | null => exact ⟨rest, rfl, rfl⟩
  | true => exact ⟨rest, rfl, rfl⟩
  | false => exact ⟨rest, rfl, rfl⟩
  | @number t x h =>
    obtain ⟨c, cs, hcons, hc⟩ := h.eq_cons
    have hread := number_read h hrest.ends
    refine ⟨rest, ?_, rfl⟩
    rw [hcons, List.cons_append] at hread ⊢
    rw [trim_cons hc.isBlank,
      readBare_of_ne (hc.ne (by decide)) (hc.ne (by decide)) (hc.ne (by decide)), orElse_apply,
      map_apply, hread, Option.map_some, Option.some_or]
  | @string t k h =>
    obtain ⟨c, cs, hcons, hc⟩ := h.eq_cons
    have hread := readString_stringText h rest
    refine ⟨rest, ?_, rfl⟩
    rw [hcons, List.cons_append] at hread ⊢
    have hblank : Text.isBlank c = false := by rcases hc with rfl | rfl <;> decide
    have hnumber : Number.read (c :: (cs ++ rest)) = none := by rcases hc with rfl | rfl <;> rfl
    have hne : c ≠ 'n' ∧ c ≠ 't' ∧ c ≠ 'f' := by rcases hc with rfl | rfl <;> decide
    rw [trim_cons hblank, readBare_of_ne hne.1 hne.2.1 hne.2.2]
    simp only [orElse_apply, map_apply, hnumber, Option.map_none, Option.none_or, hread,
      Option.map_some, Option.some_or]
  | @array t vs h =>
    have h' : Enclosed '[' ']' (Items fun t v => t.length < n ∧ LiteralText t v) t vs :=
      h.imp fun u as hu has => has.imp fun w a hw ha => ⟨by omega, ha⟩
    obtain ⟨s, hs, hread⟩ := container_reads hitem (by decide) (.inl rfl) hstop h' rest
    refine ⟨trim rest, ?_, trim_trim rest⟩
    rw [hs, readBare_of_opening (.inl rfl), orElse_apply, map_apply, hread, Option.map_some,
      Option.some_or]
  | @object t ms h =>
    have h' : Enclosed '{' '}'
        (Items (MemberText fun t v => t.length < n ∧ LiteralText t v)) t ms :=
      h.imp fun u ms hu hms => hms.imp fun w m hw hm => hm.imp fun x v hx hv => ⟨by omega, hv⟩
    obtain ⟨s, hs, hread⟩ := container_reads (readMember_reads hitem) (by decide) (.inr rfl)
      (fun _ => rfl) h' rest
    refine ⟨trim rest, ?_, trim_trim rest⟩
    have harray : enclosed '[' ']' (sepEndBy item comma) ('{' :: s) = none := rfl
    simp only [hs, readBare_of_opening (.inr rfl), orElse_apply, map_apply, harray, hread,
      Option.map_none, Option.map_some, Option.none_or]

theorem readLiteral_of_closing (bound : Nat) (s : List Char) :
    readLiteral bound (']' :: s) = none := by
  cases bound with
  | zero => rfl
  | succ bound => rfl

/-- By induction on the bound: what stands in a container is shorter than the container. -/
theorem readLiteral_reads (bound : Nat) : (readLiteral bound).Reads closers fun t v =>
    t.length < bound ∧ LiteralText t v := by
  induction bound with
  | zero =>
    rintro t v rest ⟨hlength, _⟩ _
    omega
  | succ bound ih =>
    rintro t v rest ⟨hlength, ht⟩ hrest
    have hbare : (readBare (readLiteral bound)).Accepts closers fun t v =>
        t.length ≤ bound ∧ BareText t v := by
      rintro t v rest ⟨hlength, h⟩ hrest
      exact readBare_bareText ih (readLiteral_of_closing bound) h hlength hrest
    have ht' : Padded Text.isBlank (fun t v => t.length ≤ bound ∧ BareText t v) t v :=
      ht.imp fun u v hu hv => ⟨by omega, hv⟩
    exact hbare.spaced t v rest ht' hrest

end Path
end Literals
end JsonPath
