import JsonPath.Proofs.Acceptance
import JsonPath.Proofs.JsonText
import JsonPath.Proofs.Written

/-! The parser of JSON texts reads the texts of their grammar, and each as the value that is
written. -/
namespace JsonPath

open Reader

/-- The texts of a phrase with what is made of their values. -/
def Image {α β : Type} (f : α → β) (G : Phrase α) : Phrase β := fun t b => ∃ a, G t a ∧ f a = b

namespace Json

variable {α β : Type} {G : Phrase α} {f : α → β} {t : List Char}

section Taking

/-- What a reader takes writes the value that it gives, whatever stands behind it. -/
abbrev TakesAll (r : Reader α) (G : Phrase α) : Prop := r.Takes (fun _ => True) G

theorem MemberText.blanks_append {G : Phrase Written} {w : List Char} {e : String × Written}
    (hw : Blanks isBlank w) (h : MemberText G t e) : MemberText G (w ++ t) e := by
  obtain ⟨hk, h⟩ := h
  rw [← List.append_assoc]
  exact .intro (hk.blanks_append hw) h

theorem padded_image {b : β} (h : Padded isBlank (Image f G) t b) :
    Image f (Padded isBlank G) t b := by
  obtain ⟨hw, ⟨a, ha, rfl⟩, hw'⟩ := h
  exact ⟨a, .intro hw ha hw', rfl⟩

theorem many_image {bs : List β} (h : Many (Further (Image f G)) t bs) :
    Image (List.map f) (Many (Further G)) t bs := by
  induction h with
  | nil => exact ⟨[], .nil, rfl⟩
  | cons h _ ih =>
    obtain ⟨a, ha, rfl⟩ := h
    obtain ⟨as, has, rfl⟩ := ih
    exact ⟨a :: as, .cons (.intro ha) has, rfl⟩

theorem listed_image {bs : List β} (h : Listed (Image f G) t bs) :
    Image (List.map f) (Listed G) t bs := by
  cases h with
  | none hw => exact ⟨[], .none hw, rfl⟩
  | some h hs =>
    obtain ⟨a, ha, rfl⟩ := h
    obtain ⟨as, has, rfl⟩ := many_image hs
    exact ⟨a :: as, .some ha has, rfl⟩

/-- Of the blanks in a container those before its first item are read on their own. -/
theorem listed_taken {r : Reader α} (h : TakesAll r G)
    (hG : ∀ {w t : List Char} {a : α}, Blanks isBlank w → G t a → G (w ++ t) a)
    {opening closing : Char} (ho : opening ≠ '\\') (hc : closing ≠ '\\') :
    TakesAll (char opening *> many isBlank *> sepBy r (char ',') <* char closing)
      fun t as => ∃ u, t = opening :: (u ++ [closing]) ∧ Listed G u as := by
  have hopening : TakesAll (char opening *> many isBlank) fun t _ =>
      ∃ w, t = opening :: w ∧ Blanks isBlank w := by
    refine (takes_char kept_true ho).seqRight fun t _ ht => ?_
    refine (Takes.blanks kept_true (by decide)).mono fun w _ hw => ?_
    exact ⟨w, by rw [ht]; rfl, hw⟩
  have hfurther : TakesAll (char ',' *> r) (Further G) := by
    refine (takes_char kept_true (by decide)).seqRight fun t _ ht => h.mono fun u a hu => ?_
    rw [ht]
    exact .intro hu
  have hitems : TakesAll (sepBy r (char ',')) fun t as =>
      ∀ w, Blanks isBlank w → Listed G (w ++ t) as := by
    refine Takes.orElse ?_ (takes_pure ?_)
    · refine h.bind fun t a ht => hfurther.repeated.bind fun u as hu => takes_pure ?_
      intro w hw
      rw [List.append_nil, ← List.append_assoc]
      exact .some (hG hw ht) hu
    · intro w hw
      rw [List.append_nil]
      exact .none hw
  refine hopening.between hitems (takes_char kept_true hc) ?_
  intro t u v as _ _ ht hu hv
  obtain ⟨w, rfl, hw⟩ := ht
  exact ⟨w ++ u, by rw [hv]; simp, hu w hw⟩

theorem body_taken {s cs rest : List Char} (h : dialect.body s = some (cs, rest)) :
    ∃ t, s = t ++ '"' :: rest ∧ Many CharText t cs := by
  fun_induction Text.Dialect.body dialect s generalizing cs rest with
  | case1 a b c d s ih ihpair =>
    obtain ⟨n, hn, h⟩ := Option.bind_eq_some_iff.mp h
    cases hx : Text.char? n with
    | none =>
      -- Half of a pair is no character, so a second unit must come next.
      simp only [hx] at h
      split at h
      next =>
        obtain ⟨m, hm, h⟩ := Option.bind_eq_some_iff.mp h
        obtain ⟨x, hpair, h⟩ := Option.bind_eq_some_iff.mp h
        obtain ⟨⟨cs', rest'⟩, hbody, heq⟩ := Option.map_eq_some_iff.mp h
        cases heq
        obtain ⟨t, rfl, ht⟩ := ihpair hbody
        exact ⟨_, rfl, .cons (.escape (.pair hn hm hpair)) ht⟩
      next => cases h
    | some x =>
      simp only [hx] at h
      obtain ⟨⟨cs', rest'⟩, hbody, heq⟩ := Option.map_eq_some_iff.mp h
      cases heq
      obtain ⟨t, rfl, ht⟩ := ih hbody
      exact ⟨_, rfl, .cons (.escape (.unit hn hx)) ht⟩
  | case2 c s _ ih =>
    obtain ⟨x, hx, h⟩ := Option.bind_eq_some_iff.mp h
    obtain ⟨⟨cs', rest'⟩, hbody, heq⟩ := Option.map_eq_some_iff.mp h
    cases heq
    obtain ⟨t, rfl, ht⟩ := ih hbody
    exact ⟨_, rfl, .cons (.escape (.short hx)) ht⟩
  | case3 s =>
    cases h
    exact ⟨[], rfl, .nil⟩
  | case4 c s _ _ hq hbare ih =>
    obtain ⟨⟨cs', rest'⟩, hbody, heq⟩ := Option.map_eq_some_iff.mp h
    cases heq
    obtain ⟨t, rfl, ht⟩ := ih hbody
    exact ⟨_, rfl, .cons (.raw (of_decide_eq_true hbare.2) hq hbare.1) ht⟩
  | case5 => cases h
  | case6 => cases h

theorem readString_taken : TakesAll readString StringText := by
  intro s k rest _ h
  cases s with
  | nil => cases h
  | cons c s =>
    rw [readString, Text.Dialect.read] at h
    split at h
    next hc =>
      subst hc
      obtain ⟨⟨cs, rest'⟩, hbody, heq⟩ := Option.map_eq_some_iff.mp h
      cases heq
      obtain ⟨t, rfl, ht⟩ := body_taken hbody
      exact ⟨trivial, '"' :: (t ++ ['"']), by simp [dialect], .intro ht⟩
    next => cases h

theorem readScalar_taken : TakesAll readScalar (Image Written.value ScalarText) := by
  refine (Takes.word kept_true (by decide) ⟨_, .null, rfl⟩).orElse ?_
  refine (Takes.word kept_true (by decide) ⟨_, .true, rfl⟩).orElse ?_
  refine (Takes.word kept_true (by decide) ⟨_, .false, rfl⟩).orElse ?_
  exact (readString_taken.map fun _ _ h => ⟨_, .string h, rfl⟩).orElse
    ((Number.read_takes kept_true).map fun _ _ h => ⟨_, .number h, rfl⟩)

section
variable {n : Nat} (h : TakesAll (read n) (Image Written.value (ValueText n)))
include h

theorem readItem_taken :
    TakesAll (readItem n) (Image Written.value (Padded isBlank (ValueText n))) :=
  (Takes.padded kept_true (by decide) h).mono fun _ _ => padded_image

theorem readArray_taken :
    TakesAll (readArray n) (Image Written.value (ContainerText (ValueText n))) := by
  have hblanks {w t : List Char} {v : Json} (hw : Blanks isBlank w)
      (hv : Image Written.value (Padded isBlank (ValueText n)) t v) :
      Image Written.value (Padded isBlank (ValueText n)) (w ++ t) v := by
    obtain ⟨a, ha, rfl⟩ := hv
    exact ⟨a, ha.blanks_append hw, rfl⟩
  refine (listed_taken (readItem_taken h) hblanks (by decide) (by decide)).map fun t vs ht => ?_
  obtain ⟨u, rfl, hu⟩ := ht
  obtain ⟨ws, hws, rfl⟩ := listed_image hu
  exact ⟨_, .array hws, by rw [Written.value, Written.values_eq]⟩

theorem readObject_taken :
    TakesAll (readObject n) (Image Written.value (ContainerText (ValueText n))) := by
  have hmember : TakesAll (readMember n)
      (Image (fun e => (e.1, e.2.value)) (MemberText (ValueText n))) := by
    refine (Takes.padded kept_true (by decide) readString_taken).bind fun k name hk => ?_
    refine (takes_char kept_true (by decide)).bind fun u _ hu => ?_
    refine (readItem_taken h).bind fun t v ht => takes_pure ?_
    obtain ⟨w, hw, rfl⟩ := ht
    rw [List.append_nil, hu]
    exact ⟨(name, w), .intro hk hw, rfl⟩
  have hblanks {w t : List Char} {m : String × Json} (hw : Blanks isBlank w)
      (hm : Image (fun e => (e.1, e.2.value)) (MemberText (ValueText n)) t m) :
      Image (fun e => (e.1, e.2.value)) (MemberText (ValueText n)) (w ++ t) m := by
    obtain ⟨e, he, rfl⟩ := hm
    exact ⟨e, he.blanks_append hw, rfl⟩
  refine Takes.map (G := fun t ms => ∃ es, ContainerText (ValueText n) t (.object es) ∧
    Dictionary.ofList (Written.members es) = ms) ?_ ?_
  · refine (listed_taken hmember hblanks (by decide) (by decide)).map fun t ms ht => ?_
    obtain ⟨u, rfl, hu⟩ := ht
    obtain ⟨es, hes, rfl⟩ := listed_image hu
    exact ⟨es, .object hes, by rw [Written.members_eq]⟩
  · intro t ms ht
    obtain ⟨es, hes, rfl⟩ := ht
    exact ⟨_, hes, rfl⟩

end

theorem read_taken (n : Nat) : TakesAll (read n) (Image Written.value (ValueText n)) := by
  induction n with
  | zero =>
    have hread : read 0 = readScalar := funext read_zero
    rw [hread]
    exact readScalar_taken
  | succ n ih =>
    have hread : read (n + 1) = (readScalar <|> readArray n <|> readObject n) := by
      funext s
      rw [read_succ, orElse_apply, orElse_apply]
    rw [hread]
    refine (readScalar_taken.mono ?_).orElse
      (((readArray_taken ih).mono ?_).orElse ((readObject_taken ih).mono ?_))
    · intro t v h
      obtain ⟨w, hw, rfl⟩ := h
      exact ⟨w, .inl hw, rfl⟩
    all_goals
      intro t v h
      obtain ⟨w, hw, rfl⟩ := h
      exact ⟨w, .inr hw, rfl⟩

end Taking

section GivingBack

/-- The texts of a phrase are read, with what is made of their values, where what stands behind them
has a property. -/
def GivesBack (after : List Char → Prop) (f : α → β) (r : Reader β) (G : Phrase α) : Prop :=
  ∀ (t : List Char) (a : α) (rest : List Char), G t a → after rest →
    r (t ++ rest) = some (f a, rest)

/-- Whether a blank, a comma or a closing bracket comes next, or nothing. -/
def Stops (s : List Char) : Prop :=
  ∀ c ∈ s.head?, isBlank c = true ∨ c = ',' ∨ c = ']' ∨ c = '}'

theorem Stops.ends {s : List Char} (h : Stops s) : Numeral.Ends s := by
  intro c hc
  rcases h c hc with hblank | rfl | rfl | rfl
  · simp only [isBlank, Bool.or_eq_true, beq_iff_eq] at hblank
    rcases hblank with ((rfl | rfl) | rfl) | rfl <;> decide
  all_goals decide

theorem stops_blanks_append {w rest : List Char} (hw : Blanks isBlank w) (h : Follows rest) :
    Stops (w ++ rest) := by
  intro c hc
  cases w with
  | nil => exact .inr (h c hc)
  | cons d w =>
    cases hc
    exact .inl (hw c List.mem_cons_self)

/-- The first character of a text stands for itself. -/
def Starts (G : Phrase α) : Prop :=
  ∀ (t : List Char) (a : α), G t a → ∃ c s, t = c :: s ∧ isBlank c = false

theorem dropWhile_blanks {w s : List Char} (hw : Blanks isBlank w)
    (hs : ∀ c ∈ s.head?, isBlank c = false) : (w ++ s).dropWhile isBlank = s := by
  rw [List.dropWhile_append_of_pos hw, dropWhile_eq_self hs]

theorem GivesBack.padded {after after' : List Char → Prop} {r : Reader β}
    (h : GivesBack after f r G) (hG : Starts G)
    (hafter : ∀ w rest, Blanks isBlank w → after' rest → after (w ++ rest))
    (hrest : ∀ rest, after' rest → ∀ c ∈ rest.head?, isBlank c = false) :
    GivesBack after' f (padded isBlank r) (Padded isBlank G) := by
  intro t a rest ht hr
  obtain @⟨w, u, w', _, hw, ht, hw'⟩ := ht
  obtain ⟨c, s, rfl, hc⟩ := hG u a ht
  have hfirst : (w ++ (c :: s ++ w') ++ rest).dropWhile isBlank = c :: s ++ (w' ++ rest) := by
    rw [List.append_assoc, List.append_assoc]
    exact dropWhile_blanks hw (by simpa using hc)
  rw [padded_apply, hfirst, h _ a _ ht (hafter w' rest hw' hr), Option.map_some,
    dropWhile_blanks hw' (hrest rest hr)]

section Lists
variable {item : Reader β} {as : List α} {closing : Char}

/-- Behind an item stands a comma or what closes the list. -/
theorem follows_many {ts : List Char} (h : Many (Further G) ts as)
    (hc : closing = ']' ∨ closing = '}') (rest : List Char) : Follows (ts ++ closing :: rest) := by
  cases h with
  | nil => exact follows_cons (.inr hc) _
  | cons h _ =>
    obtain ⟨h⟩ := h
    exact follows_cons (.inl rfl) _

theorem repeatUpTo_further (hitem : GivesBack Follows f item G) (hc : closing = ']' ∨ closing = '}')
    {ts : List Char} (h : Many (Further G) ts as) {n : Nat} (hn : as.length ≤ n)
    (rest : List Char) :
    repeatUpTo (char ',' *> item) n (ts ++ closing :: rest) = (as.map f, closing :: rest) := by
  induction h generalizing n with
  | nil =>
    have hcomma : char ',' (closing :: rest) = none := by rcases hc with rfl | rfl <;> rfl
    have hstop : (char ',' *> item) (closing :: rest) = none := by
      rw [seqRight_apply, hcomma, Option.bind_none]
    exact repeatUpTo_of_none hstop n
  | @cons u ts a as h hs ih =>
    obtain ⟨h⟩ := h
    obtain ⟨n, rfl⟩ : ∃ m, n = m + 1 := ⟨n - 1, by simp at hn; omega⟩
    have hread := hitem _ a _ h (follows_many hs hc rest)
    rw [repeatUpTo, List.append_assoc, List.cons_append, seqRight_apply, char_self,
      Option.bind_some, hread]
    simp only [ih (n := n) (by simpa using hn), List.map_cons]

theorem listed_givesBack (hitem : GivesBack Follows f item G) (hc : closing = ']' ∨ closing = '}')
    (hstop : ∀ s, item (closing :: s) = none)
    (hblank : ∀ s, item (s.dropWhile isBlank) = item s) {t : List Char} (h : Listed G t as)
    (rest : List Char) :
    (sepBy item (char ',') <* char closing) ((t ++ closing :: rest).dropWhile isBlank) =
      some (as.map f, rest) := by
  cases h with
  | none hw =>
    have hfirst : ∀ c ∈ (closing :: rest).head?, isBlank c = false :=
      (follows_cons (.inr hc) rest).isBlank
    rw [dropWhile_blanks hw hfirst]
    simp [sepBy, sepBy1, hstop]
  | @some t ts a as h hs =>
    have hfirst : item ((t ++ ts ++ closing :: rest).dropWhile isBlank) =
        some (f a, ts ++ closing :: rest) := by
      rw [hblank, List.append_assoc]
      exact hitem t a _ h (follows_many hs hc rest)
    -- Items are read again at most as often as there are characters left.
    have hlength : as.length ≤ (ts ++ closing :: rest).length := by
      have := hs.length_le (fun u a h => by obtain ⟨h⟩ := h; exact Nat.succ_pos _)
      rw [List.length_append]
      omega
    have hall : sepBy item (char ',') ((t ++ ts ++ closing :: rest).dropWhile isBlank) =
        some (f a :: as.map f, closing :: rest) := by
      simp only [sepBy, sepBy1, orElse_apply, bind_apply, hfirst, Option.bind_some, repeated,
        repeatUpTo_further hitem hc hs hlength rest, pure_apply, Option.some_or]
    rw [seqLeft_apply, hall, Option.bind_some, char_self, Option.map_some, List.map_cons]

end Lists

theorem body_charText {x : Char} (h : CharText t x) (rest : List Char) :
    dialect.body (t ++ rest) = (dialect.body rest).map fun r => (x :: r.1, r.2) := by
  cases h with
  | raw hc hq hs => exact Text.Dialect.body_bare _ hq hs (decide_eq_true hc) rest
  | escape h =>
    cases h with
    | short hx =>
      -- A short escape is not mistaken for a unit: `u` is the escape of no character.
      refine Text.Dialect.body_escape dialect ?_ hx rest
      rintro rfl
      cases hx
    | unit hn hx => exact Text.Dialect.body_unicode _ hn hx rest
    | @pair a b c d e f g h x n m hn hm hx =>
      have hnone : Text.char? n = none := by
        unfold Text.pair? at hx
        split at hx
        next hrange =>
          apply if_neg
          unfold Nat.isValidChar
          omega
        next => cases hx
      rw [Text.Dialect.body.eq_def]
      simp only [List.cons_append, List.nil_append, hn, hnone, hm, dialect, hx,
        Option.bind_eq_bind, Option.bind_some, if_true]
      rfl

theorem readString_givesBack : GivesBack (fun _ => True) id readString StringText := by
  intro t k rest h _
  obtain @⟨t, cs, h⟩ := h
  have hbody : dialect.body (t ++ '"' :: rest) = some (cs, rest) := by
    induction h with
    | nil => exact Text.Dialect.body_quote dialect (by decide) rest
    | cons h _ ih =>
      rw [List.append_assoc, body_charText h, ih]
      rfl
  have htext : '"' :: (t ++ ['"']) ++ rest = '"' :: (t ++ '"' :: rest) := by simp
  rw [htext, readString, Text.Dialect.read, if_pos (show '"' = dialect.quote from rfl), hbody]
  rfl

theorem starts_stringText : Starts StringText := by
  intro t k h
  obtain ⟨_⟩ := h
  exact ⟨_, _, rfl, rfl⟩

theorem starts_scalarText : Starts ScalarText := by
  intro t w h
  cases h with
  | null => exact ⟨_, _, rfl, rfl⟩
  | true => exact ⟨_, _, rfl, rfl⟩
  | false => exact ⟨_, _, rfl, rfl⟩
  | number h =>
    obtain ⟨c, s, rfl, hc⟩ := h.eq_cons
    refine ⟨c, s, rfl, isBlank_eq_false ?_⟩
    rcases hc with rfl | hc
    · decide
    · have hdigit := Char.isDigit_iff_toNat.mp hc
      simp only [Char.reduceToNat] at hdigit
      omega
  | string h => exact starts_stringText _ _ h

theorem starts_valueText (n : Nat) : Starts (ValueText n) := by
  intro t w h
  cases n with
  | zero => exact starts_scalarText t w h
  | succ n =>
    rcases h with h | h
    · exact starts_scalarText t w h
    · cases h <;> exact ⟨_, _, rfl, rfl⟩

theorem readScalar_givesBack : GivesBack Stops Written.value readScalar ScalarText := by
  intro t w rest h hrest
  cases h with
  | null => rfl
  | true => rfl
  | false => rfl
  | number h =>
    have hread := Path.number_read h hrest.ends
    obtain ⟨c, s, rfl, hc⟩ := h.eq_cons
    have hstring : readString (c :: (s ++ rest)) = none := if_neg (hc.ne (by decide))
    rw [List.cons_append] at hread ⊢
    simp only [readScalar, orElse_apply, seqRight_apply, word_of_ne (hc.ne (d := 'n') (by decide)),
      word_of_ne (hc.ne (d := 't') (by decide)), word_of_ne (hc.ne (d := 'f') (by decide)),
      Option.bind_none, Option.none_or, map_apply, hstring, Option.map_none, hread, Option.map_some]
    rfl
  | string h =>
    obtain ⟨s, hs⟩ : ∃ s, t ++ rest = '"' :: s := by
      obtain ⟨_⟩ := h
      exact ⟨_, rfl⟩
    have hread := readString_givesBack _ _ rest h trivial
    rw [hs] at hread ⊢
    simp [readScalar, word_of_ne, hread, Written.value]

section
variable {n : Nat} (h : GivesBack Stops Written.value (read n) (ValueText n))
include h

theorem readItem_givesBack :
    GivesBack Follows Written.value (readItem n) (Padded isBlank (ValueText n)) :=
  h.padded (starts_valueText n) (fun _ _ => stops_blanks_append) fun _ hrest => hrest.isBlank

theorem readMember_givesBack :
    GivesBack Follows (fun e => (e.1, e.2.value)) (readMember n) (MemberText (ValueText n)) := by
  intro t e rest ht hrest
  obtain @⟨k, t, name, w, hk, ht⟩ := ht
  have hname : GivesBack (fun s => ∀ c ∈ s.head?, c = ':') id (padded isBlank readString)
      (Padded isBlank StringText) :=
    readString_givesBack.padded starts_stringText (fun _ _ _ _ => trivial) fun s hs c hc => by
      rw [hs c hc]
      rfl
  have hkey := hname k name (':' :: (t ++ rest)) hk (by simp)
  simp only [readMember, bind_apply, List.append_assoc, List.cons_append, hkey, Option.bind_some,
    char_self, readItem_givesBack h t w rest ht hrest, pure_apply, id]

theorem readArray_givesBack {t : List Char} {ws : List Written}
    (ht : Listed (Padded isBlank (ValueText n)) t ws) (rest : List Char) :
    readArray n ('[' :: (t ++ [']']) ++ rest) = some ((Written.array ws).value, rest) := by
  have hblank (s : List Char) : readItem n (s.dropWhile isBlank) = readItem n s := by
    rw [readItem, padded_apply, padded_apply, List.dropWhile_idempotent]
  have hitems := listed_givesBack (readItem_givesBack h) (.inl rfl)
    (readItem_of_closing (.inl rfl)) hblank ht rest
  rw [seqLeft_apply] at hitems
  simp only [readArray, map_apply, seqLeft_apply, seqRight_apply, List.cons_append,
    List.append_assoc, List.nil_append, char_self, many_apply, Option.bind_some, hitems,
    Option.map_some]
  rw [Written.value, Written.values_eq]

theorem readObject_givesBack {t : List Char} {es : List (String × Written)}
    (ht : Listed (MemberText (ValueText n)) t es) (rest : List Char) :
    readObject n ('{' :: (t ++ ['}']) ++ rest) = some ((Written.object es).value, rest) := by
  have hblank (s : List Char) : readMember n (s.dropWhile isBlank) = readMember n s := by
    simp only [readMember, bind_apply, padded_apply, List.dropWhile_idempotent]
  have hitems := listed_givesBack (readMember_givesBack h) (.inr rfl) readMember_of_closing hblank
    ht rest
  rw [seqLeft_apply] at hitems
  simp only [readObject, map_apply, seqLeft_apply, seqRight_apply, List.cons_append,
    List.append_assoc, List.nil_append, char_self, many_apply, Option.bind_some, hitems,
    Option.map_some]
  rw [Written.value, Written.members_eq]

end

/-- By induction on the depth: what stands in a container nests less deep. -/
theorem read_givesBack (n : Nat) : GivesBack Stops Written.value (read n) (ValueText n) := by
  induction n with
  | zero =>
    intro t w rest h hrest
    rw [read_zero]
    exact readScalar_givesBack t w rest h hrest
  | succ n ih =>
    intro t w rest h hrest
    rcases h with h | h
    · exact read_of_scalar (readScalar_givesBack t w rest h hrest) (n + 1)
    · cases h with
      | @array t ws h =>
        have hscalar : readScalar ('[' :: (t ++ [']']) ++ rest) = none :=
          readScalar_container (.inl rfl) _
        rw [read_succ, hscalar, readArray_givesBack ih h, Option.none_or, Option.some_or]
      | @object t es h =>
        have hscalar : readScalar ('{' :: (t ++ ['}']) ++ rest) = none :=
          readScalar_container (.inr rfl) _
        have harray : readArray n ('{' :: (t ++ ['}']) ++ rest) = none := rfl
        rw [read_succ, hscalar, harray, readObject_givesBack ih h, Option.none_or, Option.none_or]

end GivingBack

/-- The texts that are read are those of the grammar, and they are read as what they write. -/
theorem parse?_eq_some_iff_writes {text : String} {d : Json} :
    parse? text = some d ↔ ∃ w, Writes text w ∧ w.value = d := by
  constructor
  · intro h
    unfold parse? all? at h
    split at h
    next v hv =>
      cases h
      obtain ⟨_, t, ht, w, hw⟩ := readItem_taken (read_taken maxDepth) _ _ _ trivial hv
      rw [List.append_nil] at ht
      exact ⟨w, by rw [Writes, ht]; exact hw.1, hw.2⟩
    next => cases h
  · intro h
    obtain ⟨w, hw, rfl⟩ := h
    have hread := readItem_givesBack (read_givesBack maxDepth) _ w [] hw (fun c hc => by cases hc)
    rw [List.append_nil] at hread
    unfold readItem at hread
    simp only [parse?, all?, hread]

end Json
end JsonPath
