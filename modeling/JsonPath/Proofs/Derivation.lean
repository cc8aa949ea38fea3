import JsonPath.Proofs.Readable
import JsonPath.Proofs.Takes

/-! What is read as a path is derivable in the grammar of paths. -/
namespace JsonPath

open Reader

section Strings

theorem Text.hexDigit?_eq_some_iff {c : Char} {k : Nat} :
    Text.hexDigit? c = some k ↔ Path.HexDigit c k := by
  constructor
  · intro h
    have hdecimal : ∀ n < 58, 48 ≤ n → Char.ofNat n = Nat.digitChar (n - 48) := by decide
    have hlower : ∀ n < 103, 97 ≤ n → Char.ofNat n = Nat.digitChar (n - 87) := by decide
    have hupper : ∀ n < 71, 65 ≤ n → Char.ofNat n = (Nat.digitChar (n - 55)).toUpper := by decide
    have hc : Char.ofNat c.toNat = c := Char.ofNat_toNat c
    unfold hexDigit? at h
    simp only [Char.le_def, UInt32.le_iff_toNat_le] at h
    split at h
    next hr =>
      cases h
      have hr' : 48 ≤ c.toNat ∧ c.toNat ≤ 57 := hr
      exact ⟨by omega, .inl (hc.symm.trans (hdecimal c.toNat (by omega) hr'.1))⟩
    next =>
      split at h
      next hr =>
        cases h
        have hr' : 97 ≤ c.toNat ∧ c.toNat ≤ 102 := hr
        exact ⟨by omega, .inl (hc.symm.trans (hlower c.toNat (by omega) hr'.1))⟩
      next =>
        split at h
        next hr =>
          cases h
          have hr' : 65 ≤ c.toNat ∧ c.toNat ≤ 70 := hr
          exact ⟨by omega, .inr (hc.symm.trans (hupper c.toNat (by omega) hr'.1))⟩
        next => cases h
  · rintro ⟨hk, rfl | rfl⟩
    · revert k
      decide
    · revert k
      decide

theorem Path.escapeText_of_hexUnit? {a b c d x : Char} {n : Nat}
    (hn : Text.hexUnit? a b c d = some n) (hx : Text.char? n = some x) :
    Path.EscapeText ['\\', 'u', a, b, c, d] x := by
  simp only [Text.hexUnit?, Option.bind_eq_bind, Option.bind_eq_some_iff, Option.pure_def,
    Option.some.injEq, Text.hexDigit?_eq_some_iff] at hn
  obtain ⟨i, ha, j, hb, k, hc, l, hd, rfl⟩ := hn
  unfold Text.char? at hx
  split at hx
  next hvalid =>
    cases hx
    refine .unicode ha hb hc hd (by omega) ?_
    unfold Nat.isValidChar at hvalid
    omega
  next => cases hx

variable {I : List Char → Prop}

/-- The characters of a string up to its closing quote, in any dialect that has no other escapes. No
surrogate pair is read, be it that the dialect has none or that none is left to read. -/
theorem Text.Dialect.body_derives (hI : Kept I) {l : Text.Dialect} (hquote : l.quote ≠ '\\')
    (hescape : ∀ c x, l.escape? c = some x → (c, x) ∈ Path.escapes)
    (hpairs : ∀ {a b c d : Char} {s : List Char} {n : Nat},
      I ('\\' :: 'u' :: a :: b :: c :: d :: s) → Text.hexUnit? a b c d = some n →
        Text.char? n = none → l.pairs = false)
    {s cs rest : List Char} (hs : I s) (h : l.body s = some (cs, rest)) :
    I rest ∧ ∃ t, s = t ++ l.quote :: rest ∧ Many (Path.CharText l.quote) t cs := by
  fun_induction body l s generalizing cs rest with
  | case1 a b c d s ih _ =>
    obtain ⟨n, hn, h⟩ := Option.bind_eq_some_iff.mp h
    cases hx : char? n with
    | none =>
      -- A unit that is no character could only begin a pair.
      have hfalse := hpairs hs hn hx
      simp only [hx] at h
      split at h
      · obtain ⟨m, _, h⟩ := Option.bind_eq_some_iff.mp h
        simp [hfalse] at h
      · cases h
    | some x =>
      simp only [hx] at h
      obtain ⟨⟨cs', rest'⟩, hbody, heq⟩ := Option.map_eq_some_iff.mp h
      cases heq
      have ht := Path.escapeText_of_hexUnit? hn hx
      obtain ⟨hrest, t, rfl, hM⟩ := ih (hI.escape ht hs) hbody
      exact ⟨hrest, _, rfl, .cons (.escape ht) hM⟩
  | case2 c s _ ih =>
    obtain ⟨x, hx, h⟩ := Option.bind_eq_some_iff.mp h
    obtain ⟨⟨cs', rest'⟩, hbody, heq⟩ := Option.map_eq_some_iff.mp h
    cases heq
    have ht : Path.EscapeText ['\\', c] x := .short (hescape c x hx)
    obtain ⟨hrest, t, rfl, hM⟩ := ih (hI.escape ht hs) hbody
    exact ⟨hrest, _, rfl, .cons (.escape ht) hM⟩
  | case3 s =>
    cases h
    exact ⟨hI.skip hquote hs, [], rfl, .nil⟩
  | case4 c s _ _ hq hbare ih =>
    obtain ⟨⟨cs', rest'⟩, hbody, heq⟩ := Option.map_eq_some_iff.mp h
    cases heq
    obtain ⟨hrest, t, rfl, hM⟩ := ih (hI.skip hbare.1 hs) hbody
    exact ⟨hrest, _, rfl, .cons (.raw hq hbare.1) hM⟩
  | case5 => cases h
  | case6 => cases h

theorem Text.Dialect.read_takes (hI : Kept I) {l : Text.Dialect}
    (hquote : l.quote = '\'' ∨ l.quote = '"')
    (hescape : ∀ c x, l.escape? c = some x → (c, x) ∈ Path.escapes)
    (hpairs : ∀ {a b c d : Char} {s : List Char} {n : Nat},
      I ('\\' :: 'u' :: a :: b :: c :: d :: s) → Text.hexUnit? a b c d = some n →
        Text.char? n = none → l.pairs = false) : l.read.Takes I Path.StringText := by
  intro s k rest hs h
  have hne : l.quote ≠ '\\' := by rcases hquote with h | h <;> simp [h]
  cases s with
  | nil => cases h
  | cons c s =>
    rw [Text.Dialect.read] at h
    split at h
    next hc =>
      subst hc
      obtain ⟨⟨cs, rest'⟩, hbody, heq⟩ := Option.map_eq_some_iff.mp h
      cases heq
      obtain ⟨hrest, t, rfl, hM⟩ := body_derives hI hne hescape hpairs (hI.skip hne hs) hbody
      exact ⟨hrest, _, by simp, .intro hquote hM⟩
    next => cases h

theorem Path.mem_escapes_of_escape? {c x : Char} (h : Text.escape? c = some x) :
    (c, x) ∈ Path.escapes := by
  unfold Text.escape? at h
  split at h <;> cases h <;> decide

namespace Path

theorem mem_escapes_of_dialect {quote c x : Char} (h : (dialect quote).escape? c = some x) :
    (c, x) ∈ escapes := by
  simp only [dialect] at h
  split at h
  next hc =>
    cases h
    subst hc
    decide
  next => exact mem_escapes_of_escape? h

theorem readString_takes (hI : Kept I) : readString.Takes I StringText :=
  (Text.Dialect.read_takes hI (.inl rfl) (fun _ _ => mem_escapes_of_dialect)
      fun _ _ _ => rfl).orElse
    (Text.Dialect.read_takes hI (.inr rfl) (fun _ _ => mem_escapes_of_dialect) fun _ _ _ => rfl)

end Path
end Strings

section Numbers
variable {I : List Char → Prop}

namespace Numeral

theorem minus_takes (hI : Kept I) : minus.Takes I Path.SignText := by
  refine Takes.orElse ?_ (takes_pure .none)
  refine (takes_char hI (by decide)).seqRight fun t _ ht => takes_pure ?_
  subst ht
  exact .minus

theorem digits_takes (hI : Kept I) : digits.Takes I fun t ds => t = ds ∧ Path.Digits ds := by
  refine (takes_satisfy hI (by decide)).bind fun t c ht => ?_
  refine (takes_many hI (by decide)).bind fun u cs hu => takes_pure ?_
  obtain ⟨rfl, hc⟩ := ht
  obtain ⟨rfl, hcs⟩ := hu
  exact ⟨by simp, List.cons_ne_nil _ _, List.forall_mem_cons.mpr ⟨hc, hcs⟩⟩

theorem readExponent_takes (hI : Kept I) :
    readExponent.Takes I fun t x => Path.ExponentText t (some x) := by
  have hletter : (char 'e' <|> char 'E').Takes I fun t _ => t = ['e'] ∨ t = ['E'] :=
    ((takes_char hI (by decide)).mono fun _ _ => .inl).orElse
      ((takes_char hI (by decide)).mono fun _ _ => .inr)
  have hsign : (char '-' *> pure true <|> char '+' *> pure false <|> pure false).Takes I
      Path.ExponentSignText := by
    refine Takes.orElse ?_ (Takes.orElse ?_ (takes_pure (.sign .none)))
    · refine (takes_char hI (by decide)).seqRight fun t _ ht => takes_pure ?_
      subst ht
      exact .sign .minus
    · refine (takes_char hI (by decide)).seqRight fun t _ ht => takes_pure ?_
      subst ht
      exact .plus
  refine hletter.bind fun t _ ht => hsign.bind fun u negative hu => ?_
  refine (digits_takes hI).bind fun v ds hv => takes_pure ?_
  obtain ⟨rfl, hds⟩ := hv
  rw [List.append_nil]
  rcases ht with rfl | rfl
  · exact .some (.inl rfl) hu hds
  · exact .some (.inr rfl) hu hds

theorem read_takes (hI : Kept I) : read.Takes I Path.NumeralText := by
  have hfraction : (optional (char '.' *> digits)).Takes I Path.FractionText := by
    refine Takes.optional (G := fun t ds => t = '.' :: ds ∧ Path.Digits ds) ?_ ?_ .none
    · refine (takes_char hI (by decide)).seqRight fun t _ ht => (digits_takes hI).mono ?_
      rintro u ds ⟨rfl, hds⟩
      subst ht
      exact ⟨rfl, hds⟩
    · rintro t ds ⟨rfl, hds⟩
      exact .some hds
  have hexponent : (optional readExponent).Takes I Path.ExponentText :=
    (readExponent_takes hI).optional (fun _ _ h => h) .none
  refine (minus_takes hI).bind fun s negative hs => (digits_takes hI).bind fun t ds ht => ?_
  refine hfraction.bind fun f fraction hf => hexponent.bind fun e exponent he => takes_pure ?_
  obtain ⟨rfl, hds⟩ := ht
  have h := Path.NumeralText.intro hs hds hf he
  simpa using h

end Numeral

theorem Number.read_takes (hI : Kept I) : Number.read.Takes I Path.NumberText := by
  intro s x rest hs h
  obtain ⟨⟨n, rest'⟩, hn, h⟩ := Option.bind_eq_some_iff.mp h
  obtain ⟨y, hy, h⟩ := Option.bind_eq_some_iff.mp h
  cases h
  obtain ⟨hrest, t, rfl, ht⟩ := Numeral.read_takes hI s n _ hs hn
  exact ⟨hrest, t, rfl, .intro ht hy⟩

theorem Path.readIndex_takes (hI : Kept I) : Path.readIndex.Takes I Path.IndexText := by
  intro s i rest hs h
  obtain ⟨⟨negative, s'⟩, hminus, h⟩ := Option.bind_eq_some_iff.mp h
  obtain ⟨⟨ds, s''⟩, hdigits, h⟩ := Option.bind_eq_some_iff.mp h
  obtain ⟨hs', t, rfl, ht⟩ := Numeral.minus_takes hI s negative s' hs hminus
  obtain ⟨hs'', u, rfl, rfl, hds⟩ := Numeral.digits_takes hI s' ds s'' hs' hdigits
  simp only [Option.pure_def, Option.ite_none_right_eq_some, Option.some.injEq,
    Prod.mk.injEq] at h
  obtain ⟨hbounds, rfl, rfl⟩ := h
  refine ⟨hs'', t ++ u, (List.append_assoc ..).symm, .intro ht hds ?_⟩
  exact Int64.toInt_ofInt_of_le hbounds.1 (Int.lt_add_one_of_le hbounds.2)

end Numbers
namespace Path

def readMember (item : Reader Json) : Reader (String × Json) := do
  let name ← spaced readString
  spaced (char ':')
  return (name, ← item)

/-- A literal without the blanks around it. -/
def readBare (item : Reader Json) : Reader Json :=
  word ['n', 'u', 'l', 'l'] *> pure Json.null <|>
    word ['t', 'r', 'u', 'e'] *> pure (Json.bool true) <|>
    word ['f', 'a', 'l', 's', 'e'] *> pure (Json.bool false) <|>
    Json.number <$> Number.read <|>
    Json.string <$> readString <|>
    Json.array <$> enclosed '[' ']' (sepEndBy item comma) <|>
    Json.object <$> Dictionary.ofList <$> enclosed '{' '}' (sepEndBy (readMember item) comma)

theorem readLiteral_succ (bound : Nat) :
    readLiteral (bound + 1) = spaced (readBare (readLiteral bound)) := rfl

variable {I : List Char → Prop}

theorem comma_takes (hI : Kept I) : comma.Takes I fun t _ => Mark ',' t :=
  Takes.mark hI (by decide)

theorem readMember_takes (hI : Kept I) {item : Reader Json} {G : Phrase Json}
    (h : item.Takes I G) : (readMember item).Takes I (MemberText G) := by
  refine ((readString_takes hI).spaced hI).bind fun k name hk => ?_
  refine (Takes.mark hI (by decide)).bind fun u _ hu => ?_
  refine h.bind fun t v ht => takes_pure ?_
  rw [List.append_nil]
  exact .intro hk hu ht

theorem readBare_takes (hI : Kept I) {item : Reader Json} (h : item.Takes I LiteralText) :
    (readBare item).Takes I BareText := by
  refine (Takes.word hI (by decide) .null).orElse ?_
  refine (Takes.word hI (by decide) .true).orElse ?_
  refine (Takes.word hI (by decide) .false).orElse ?_
  refine ((Number.read_takes hI).map fun _ _ => .number).orElse ?_
  refine ((readString_takes hI).map fun _ _ => .string).orElse ?_
  refine Takes.orElse ?_ ?_
  · exact ((h.sepEndBy (comma_takes hI)).enclosed hI (by decide) (by decide)).map
      fun _ _ => .array
  · have hmembers := (readMember_takes hI h).sepEndBy (comma_takes hI)
    refine Takes.map (G := fun t ms => ∃ es, ms = Dictionary.ofList es ∧
      Enclosed '{' '}' (Items (MemberText LiteralText)) t es) ?_ ?_
    · exact (hmembers.enclosed hI (by decide) (by decide)).map fun _ es hes => ⟨es, rfl, hes⟩
    · rintro t _ ⟨es, rfl, hes⟩
      exact .object hes

theorem readLiteral_takes (hI : Kept I) (bound : Nat) :
    (readLiteral bound).Takes I LiteralText := by
  induction bound with
  | zero => exact takes_failure
  | succ bound ih =>
    rw [readLiteral_succ]
    exact (readBare_takes hI ih).spaced hI

theorem readIdentifier_takes (hI : Kept I) : readIdentifier.Takes I NameText := by
  refine (takes_satisfy hI (by decide)).bind fun t c ht => ?_
  refine (takes_many hI (by decide)).bind fun u cs hu => takes_pure ?_
  obtain ⟨rfl, hc⟩ := ht
  obtain ⟨rfl, hcs⟩ := hu
  have h := NameText.intro hc hcs
  simpa using h

theorem readBracketed_takes (hI : Kept I) : readBracketed.Takes I SegmentText := by
  have hinner : (spaced (Segment.property <$> readString <|> Segment.index <$> readIndex)).Takes I
      (Padded Text.isBlank BracketText) :=
    (((readString_takes hI).map fun _ _ => .property).orElse
      ((readIndex_takes hI).map fun _ _ => .index)).spaced hI
  refine (takes_char hI (by decide)).between hinner (takes_char hI (by decide)) ?_
  intro t u v s _ _ ht hu hv
  subst ht hv
  exact .bracket hu

variable {argument : Reader Argument}

theorem readArguments_takes (hI : Kept I) (h : argument.Takes I ArgumentText) :
    (readArguments argument).Takes I fun t as => ∃ u v, t = u ++ (v ++ [')']) ∧ Mark '(' u ∧
      Listed (Padded Text.isBlank ArgumentText) v as := by
  have hitems := (h.spaced hI).sepBy (comma_takes hI)
  refine (Takes.mark hI (by decide)).between hitems (takes_char hI (by decide)) ?_
  intro u v w as _ _ hu hv hw
  exact ⟨u, v, by rw [hw], hu, hv⟩

theorem readSegment_takes (hI : Kept I) (h : argument.Takes I ArgumentText) :
    (readSegment argument).Takes I SegmentText := by
  refine Takes.orElse ?_ (readBracketed_takes hI)
  refine (takes_char hI (by decide)).bind fun t _ ht => ?_
  refine (readIdentifier_takes hI).bind fun n name hn => ?_
  subst ht
  refine Takes.bind (G := fun t as? => (∀ as ∈ as?, ∃ u v, t = u ++ (v ++ [')']) ∧ Mark '(' u ∧
    Listed (Padded Text.isBlank ArgumentText) v as) ∧ (as? = none → t = []))
    ((readArguments_takes hI h).optional ?_ ?_) ?_
  · intro t as ht
    refine ⟨?_, by simp⟩
    intro as' has
    cases has
    exact ht
  · exact ⟨by simp, fun _ => rfl⟩
  · intro t as? ht
    cases as? with
    | none =>
      refine takes_pure ?_
      rw [ht.2 rfl, List.append_nil, List.append_nil]
      exact .property hn
    | some as =>
      refine takes_pure ?_
      obtain ⟨u, v, rfl, hu, hv⟩ := ht.1 as rfl
      rw [List.append_nil]
      exact .call hn hu hv

theorem read_takes (hI : Kept I) (literals bound : Nat) :
    (read literals bound).Takes I PathText := by
  induction bound with
  | zero => exact takes_failure
  | succ bound ih =>
    have hargument : (readArgument literals bound).Takes I ArgumentText :=
      (ih.map fun _ _ => .path).orElse ((readLiteral_takes hI literals).map fun _ _ => .literal)
    have hroot : readRoot.Takes I fun t root => t = [root.symbol] := by
      refine Takes.orElse ?_ ?_
      · exact (takes_char hI (by decide)).seqRight fun t _ ht => takes_pure (by rw [ht]; rfl)
      · exact (takes_char hI (by decide)).seqRight fun t _ ht => takes_pure (by rw [ht]; rfl)
    rw [read_succ, seq_eq_bind_map]
    refine Takes.bind (hroot.map (H := fun t f => ∃ root : Root, t = [root.symbol] ∧
      f = Path.mk root) fun t root ht => ⟨root, ht, rfl⟩) ?_
    rintro t _ ⟨root, rfl, rfl⟩
    exact (readSegment_takes hI hargument).repeated.map fun u ss hu => .intro hu

/-- A text that is read as a path is derivable with it, and what no part of a path takes away holds
at its end. -/
theorem derives_of_parse? (hI : Kept I) {text : String} {p : Path} (hs : I text.toList)
    (h : parse? text = some p) : I [] ∧ Derives text p := by
  unfold parse? all? at h
  simp only at h
  split at h
  next q hq =>
    cases h
    obtain ⟨hrest, t, ht, hG⟩ := ((read_takes hI _ _).spaced hI) _ _ _ hs hq
    rw [List.append_nil] at ht
    exact ⟨hrest, by rw [Derives, ht]; exact hG⟩
  next => cases h

end Path
end JsonPath
