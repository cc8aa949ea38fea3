import JsonPath.Json.Parser
import JsonPath.Json.Printer
import JsonPath.Proofs.Dictionary
import JsonPath.Proofs.Numeral
import JsonPath.Proofs.Separated

/-! Printed values read back as long as they do not nest too deep. -/
namespace JsonPath

open Reader

namespace Json

mutual

/-- How deep arrays and objects nest. -/
def depth : Json → Nat
  | array es => elementsDepth es + 1
  | object ms => membersDepth ms + 1
  | _ => 0

def elementsDepth : List Json → Nat
  | [] => 0
  | v :: vs => max v.depth (elementsDepth vs)

def membersDepth : List (String × Json) → Nat
  | [] => 0
  | (_, v) :: ms => max v.depth (membersDepth ms)

end

/-- Whether a value nests at most `n` deep. -/
def fits (n : Nat) (v : Json) : Bool := decide (v.depth ≤ n)

mutual

/-- A property holds of a value and of all values in it. -/
def All (P : Json → Prop) : Json → Prop
  | array es => P (array es) ∧ AllElements P es
  | object ms => P (object ms) ∧ AllMembers P ms
  | v => P v

def AllElements (P : Json → Prop) : List Json → Prop
  | [] => True
  | v :: vs => v.All P ∧ AllElements P vs

def AllMembers (P : Json → Prop) : List (String × Json) → Prop
  | [] => True
  | (_, v) :: ms => v.All P ∧ AllMembers P ms

end

/-- All numbers in a value are integers. -/
def Integral : Json → Prop := All fun v => ∀ x, v ≠ .number (.double x)

/-- All objects in a value are in the order of their keys. -/
def Ordered : Json → Prop := All fun v => Dictionary.Sorted v.members

theorem elementsDepth_le {es : List Json} {n : Nat} :
    elementsDepth es ≤ n ↔ ∀ v ∈ es, v.depth ≤ n := by
  induction es with
  | nil => simp [elementsDepth]
  | cons v es ih => rw [elementsDepth, Nat.max_le, ih, List.forall_mem_cons]

theorem membersDepth_le {ms : List (String × Json)} {n : Nat} :
    membersDepth ms ≤ n ↔ ∀ m ∈ ms, m.2.depth ≤ n := by
  induction ms with
  | nil => simp [membersDepth]
  | cons m ms ih => rw [membersDepth, Nat.max_le, ih, List.forall_mem_cons]

theorem fits_array (n : Nat) (es : List Json) : (array es).fits (n + 1) = es.all (fits n) := by
  rw [Bool.eq_iff_iff, List.all_eq_true]
  simp only [fits, decide_eq_true_eq, depth, Nat.add_le_add_iff_right, elementsDepth_le]

theorem fits_object (n : Nat) (ms : List (String × Json)) :
    (object ms).fits (n + 1) = ms.all fun m => m.2.fits n := by
  rw [Bool.eq_iff_iff, List.all_eq_true]
  simp only [fits, decide_eq_true_eq, depth, Nat.add_le_add_iff_right, membersDepth_le]

theorem allElements_iff {P : Json → Prop} {es : List Json} :
    AllElements P es ↔ ∀ v ∈ es, v.All P := by
  induction es with
  | nil => simp [AllElements]
  | cons v es ih => simp [AllElements, ih]

theorem allMembers_iff {P : Json → Prop} {ms : List (String × Json)} :
    AllMembers P ms ↔ ∀ m ∈ ms, m.2.All P := by
  induction ms with
  | nil => simp [AllMembers]
  | cons m ms ih => simp [AllMembers, ih]

theorem ordered_null : null.Ordered := .nil

theorem ordered_bool (b : Bool) : (bool b).Ordered := .nil

theorem ordered_number (n : Number) : (number n).Ordered := .nil

theorem ordered_string (k : String) : (string k).Ordered := .nil

theorem ordered_array_iff {es : List Json} : (array es).Ordered ↔ ∀ v ∈ es, v.Ordered := by
  rw [Ordered, All, allElements_iff]
  exact and_iff_right .nil

theorem ordered_object_iff {ms : List (String × Json)} :
    (object ms).Ordered ↔ Dictionary.Sorted ms ∧ ∀ m ∈ ms, m.2.Ordered := by
  rw [Ordered, All, allMembers_iff]
  rfl

theorem ordered_ofList {ms : List (String × Json)} (h : ∀ m ∈ ms, m.2.Ordered) :
    (object (Dictionary.ofList ms)).Ordered :=
  ordered_object_iff.mpr ⟨Dictionary.sorted_ofList ms, fun m hm => h m (Dictionary.mem_ofList hm)⟩

section Strings

theorem hexUnit?_low {n : Nat} (h : n < 32) :
    Text.hexUnit? '0' '0' (Nat.digitChar (n / 16)) (Nat.digitChar (n % 16)) = some n := by
  have hdigit : ∀ k < 16, Text.hexDigit? (Nat.digitChar k) = some k := by decide
  have hzero : Text.hexDigit? '0' = some 0 := rfl
  have hhigh := hdigit (n / 16) (by omega)
  have hlow := hdigit (n % 16) (by omega)
  simp only [Text.hexUnit?, hzero, hhigh, hlow, Option.bind_eq_bind, Option.bind_some,
    Option.pure_def, Option.some.injEq]
  omega

theorem char?_toNat (c : Char) : Text.char? c.toNat = some c := by
  have hvalid : c.toNat.isValidChar := c.valid
  rw [Text.char?, if_pos hvalid, Char.ofNat_toNat]

/-- Each way to write a character is read as the character. -/
theorem body_escape (c : Char) (s : List Char) :
    dialect.body (escape c ++ s) = (dialect.body s).map fun r => (c :: r.1, r.2) := by
  unfold escape
  split
  · exact Text.Dialect.body_escape _ (by decide) rfl s
  · exact Text.Dialect.body_escape _ (by decide) rfl s
  · exact Text.Dialect.body_escape _ (by decide) rfl s
  · exact Text.Dialect.body_escape _ (by decide) rfl s
  · exact Text.Dialect.body_escape _ (by decide) rfl s
  next hquote hslash _ _ _ =>
    by_cases hb : c = Char.ofNat 8
    · rw [if_pos hb]
      exact Text.Dialect.body_escape _ (by decide) (hb ▸ rfl) s
    · rw [if_neg hb]
      by_cases hf : c = Char.ofNat 12
      · rw [if_pos hf]
        exact Text.Dialect.body_escape _ (by decide) (hf ▸ rfl) s
      · rw [if_neg hf]
        by_cases hc : c.toNat < 32
        · rw [if_pos hc]
          exact Text.Dialect.body_unicode _ (hexUnit?_low hc) (char?_toNat c) s
        · rw [if_neg hc]
          have hbare : dialect.bare c = true := decide_eq_true (Nat.le_of_not_lt hc)
          exact Text.Dialect.body_bare _ hquote hslash hbare s

theorem readString_quote (k : String) (s : List Char) :
    readString (quote k ++ s) = some (k, s) := by
  have hbody (cs : List Char) : dialect.body (cs.flatMap escape ++ '"' :: s) = some (cs, s) := by
    induction cs with
    | nil => exact Text.Dialect.body_quote _ (by decide) s
    | cons c cs ih =>
      rw [List.flatMap_cons, List.append_assoc, body_escape, ih]
      rfl
  have hquote : quote k ++ s = '"' :: (k.toList.flatMap escape ++ '"' :: s) := by simp [quote]
  rw [hquote, readString, Text.Dialect.read, if_pos (show '"' = dialect.quote from rfl), hbody]
  simp

end Strings

/-- Whether nothing that stands behind a value could belong to it. -/
def Follows (s : List Char) : Prop := ∀ c ∈ s.head?, c = ',' ∨ c = ']' ∨ c = '}'

theorem Follows.ends {s : List Char} (h : Follows s) : Numeral.Ends s := by
  intro c hc
  rcases h c hc with rfl | rfl | rfl <;> decide

theorem Follows.isBlank {s : List Char} (h : Follows s) : ∀ c ∈ s.head?, isBlank c = false := by
  intro c hc
  rcases h c hc with rfl | rfl | rfl <;> rfl

theorem follows_cons {c : Char} (h : c = ',' ∨ c = ']' ∨ c = '}') (s : List Char) :
    Follows (c :: s) := by
  intro d hd
  cases hd
  exact h

theorem isBlank_eq_false {c : Char} (h : 32 < c.toNat) : isBlank c = false := by
  have hne {d : Char} (hd : d.toNat ≤ 32) : (c == d) = false := by
    rw [beq_eq_false_iff_ne]
    rintro rfl
    omega
  unfold isBlank
  rw [hne (by decide), hne (by decide), hne (by decide), hne (by decide)]
  rfl

/-- A printed value starts with a character that is neither blank nor closes an array. -/
theorem print_eq_cons {v : Json} (hv : v.Integral) :
    ∃ c cs, v.print = c :: cs ∧ isBlank c = false ∧ c ≠ ']' := by
  cases v with
  | null => exact ⟨_, _, rfl, rfl, by decide⟩
  | bool b => cases b <;> exact ⟨_, _, rfl, rfl, by decide⟩
  | number n =>
    cases n with
    | double x => exact absurd rfl (hv x)
    | integer n =>
      obtain ⟨c, cs, hcons, hlow, hhigh⟩ := Numeral.ofInt_eq_cons n.value
      refine ⟨c, cs, hcons, isBlank_eq_false (by omega), ?_⟩
      rintro rfl
      exact absurd hhigh (by decide)
  | string s => exact ⟨_, _, rfl, rfl, by decide⟩
  | array es => exact ⟨_, _, rfl, rfl, by decide⟩
  | object ms => exact ⟨_, _, rfl, rfl, by decide⟩

theorem printElements_eq (es : List Json) : printElements es = commaSeparated print es := by
  induction es with
  | nil => rfl
  | cons v es ih =>
    cases es with
    | nil => simp [printElements, commaSeparated]
    | cons w es => simp [printElements, commaSeparated, ih]

def printMember (m : String × Json) : List Char := quote m.1 ++ ':' :: print m.2

theorem printMembers_eq (ms : List (String × Json)) :
    printMembers ms = commaSeparated printMember ms := by
  induction ms with
  | nil => rfl
  | cons m ms ih =>
    cases ms with
    | nil => simp [printMembers, commaSeparated, printMember]
    | cons m' ms => simp [printMembers, commaSeparated, printMember, ih]

/-- Values that are no containers. -/
def readScalar : Reader Json :=
  word ['n', 'u', 'l', 'l'] *> pure null <|>
    word ['t', 'r', 'u', 'e'] *> pure (bool true) <|>
    word ['f', 'a', 'l', 's', 'e'] *> pure (bool false) <|>
    string <$> readString <|>
    number <$> Number.read

def readItem (n : Nat) : Reader Json := padded isBlank (read n)

def readMember (n : Nat) : Reader (String × Json) := do
  let name ← padded isBlank readString
  char ':'
  return (name, ← readItem n)

def readArray (n : Nat) : Reader Json :=
  array <$> (char '[' *> many isBlank *> sepBy (readItem n) (char ',') <* char ']')

def readObject (n : Nat) : Reader Json :=
  object <$> Dictionary.ofList <$>
    (char '{' *> many isBlank *> sepBy (readMember n) (char ',') <* char '}')

theorem read_zero (s : List Char) : read 0 s = readScalar s := by
  simp only [read, readScalar, orElse_apply, failure_apply, Option.or_none]

theorem read_succ (n : Nat) (s : List Char) :
    read (n + 1) s = (readScalar s).or ((readArray n s).or (readObject n s)) := by
  simp only [read, readScalar, readArray, readObject, readMember, readItem, orElse_apply,
    Option.or_assoc]

theorem read_of_scalar {s rest : List Char} {v : Json} (h : readScalar s = some (v, rest))
    (n : Nat) : read n s = some (v, rest) := by
  cases n with
  | zero => rw [read_zero, h]
  | succ n => rw [read_succ, h, Option.some_or]

theorem readScalar_string (k : String) (rest : List Char) :
    readScalar (quote k ++ rest) = some (string k, rest) := by
  obtain ⟨s, hs⟩ : ∃ s, quote k ++ rest = '"' :: s := ⟨_, rfl⟩
  have hstring := readString_quote k rest
  rw [hs] at hstring ⊢
  simp [readScalar, word_of_ne, hstring]

theorem readScalar_integer (n : Integer) {rest : List Char} (hrest : Follows rest) :
    readScalar (Text.ofInt n.value ++ rest) = some (number (.integer n), rest) := by
  have hnumber := Number.read_ofInt n hrest.ends
  obtain ⟨c, cs, hcons, hlow, hhigh⟩ := Numeral.ofInt_eq_cons n.value
  have hne {d : Char} (hd : d.toNat ≤ 44 ∨ 58 ≤ d.toNat) : c ≠ d := by
    rintro rfl
    omega
  have hstring (s : List Char) : readString (c :: s) = none :=
    if_neg (hne (by decide))
  rw [hcons, List.cons_append] at hnumber ⊢
  have hn : c ≠ 'n' := hne (by decide)
  have ht : c ≠ 't' := hne (by decide)
  have hf : c ≠ 'f' := hne (by decide)
  simp only [readScalar, orElse_apply, seqRight_apply, word_of_ne hn, word_of_ne ht, word_of_ne hf,
    Option.bind_none, Option.none_or, map_apply, hstring, Option.map_none, hnumber,
    Option.map_some]

theorem readScalar_container {c : Char} (h : c = '[' ∨ c = '{') (s : List Char) :
    readScalar (c :: s) = none := by
  rcases h with rfl | rfl <;> rfl

/-- A value reads back, whatever follows it, unless it nests too deep. -/
def ReadsBack (n : Nat) (v : Json) : Prop :=
  ∀ s, Follows s → read n (v.print ++ s) = if v.fits n then some (v, s) else none

variable {es : List Json} {ms : List (String × Json)} {n : Nat}

theorem readItem_print {v : Json} (hv : v.Integral) (hread : v.ReadsBack n) {s : List Char}
    (hs : Follows s) : readItem n (v.print ++ s) = if v.fits n then some (v, s) else none := by
  obtain ⟨c, cs, hcons, hblank, _⟩ := print_eq_cons hv
  rw [readItem, padded_eq_self, hread s hs]
  · intro d hd
    rw [hcons] at hd
    cases hd
    exact hblank
  · intro w rest h
    rw [hread s hs] at h
    split at h
    · cases h
      exact hs.isBlank
    · cases h

theorem readItem_of_closing {c : Char} (h : c = ']' ∨ c = '}') (s : List Char) :
    readItem n (c :: s) = none := by
  have hscalar : readScalar (c :: s) = none := by rcases h with rfl | rfl <;> rfl
  have hblank : isBlank c = false := by rcases h with rfl | rfl <;> rfl
  have harray : char '[' (c :: s) = none := by rcases h with rfl | rfl <;> rfl
  have hobject : char '{' (c :: s) = none := by rcases h with rfl | rfl <;> rfl
  have hread : read n (c :: s) = none := by
    cases n with
    | zero => rw [read_zero, hscalar]
    | succ n => simp [read_succ, hscalar, readArray, readObject, harray, hobject]
  rw [readItem, padded_apply, List.dropWhile_cons_of_neg (by simp [hblank]), hread, Option.map_none]

theorem readMember_print {m : String × Json} (hm : m.2.Integral) (hread : m.2.ReadsBack n)
    {s : List Char} (hs : Follows s) :
    readMember n (printMember m ++ s) = if m.2.fits n then some (m, s) else none := by
  obtain ⟨name, v⟩ := m
  have hname : padded isBlank readString (quote name ++ ':' :: (v.print ++ s)) =
      some (name, ':' :: (v.print ++ s)) := by
    refine padded_eq ?_ ?_ (readString_quote name _)
    · intro c hc
      cases hc
      rfl
    · intro c hc
      cases hc
      rfl
  simp only [printMember, List.append_assoc, List.cons_append, readMember, bind_apply, hname,
    Option.bind_some, char_self, readItem_print hm hread hs]
  split <;> rfl

theorem readMember_of_closing (s : List Char) : readMember n ('}' :: s) = none := rfl

/-- No blank stands behind the opening bracket. -/
theorem dropWhile_commaSeparated {α : Type} {write : α → List Char} {as : List α} {c : Char}
    (hwrite : ∀ a ∈ as, ∀ s, ∀ d ∈ (write a ++ s).head?, isBlank d = false)
    (hc : isBlank c = false) (rest : List Char) :
    (commaSeparated write as ++ c :: rest).dropWhile isBlank =
      commaSeparated write as ++ c :: rest := by
  apply dropWhile_eq_self
  cases as with
  | nil =>
    intro d hd
    cases hd
    exact hc
  | cons a as =>
    rw [commaSeparated, List.append_assoc]
    exact hwrite a List.mem_cons_self _

theorem readArray_print (hes : ∀ v ∈ es, v.Integral) (hread : ∀ v ∈ es, v.ReadsBack n)
    (rest : List Char) : readArray n ((array es).print ++ rest) =
      if es.all (fits n) then some (array es, rest) else none := by
  have hfirst (v : Json) (hv : v ∈ es) (s : List Char) :
      ∃ c cs, v.print ++ s = c :: cs ∧ isBlank c = false ∧ c ≠ ']' := by
    obtain ⟨c, cs, hcons, h⟩ := print_eq_cons (hes v hv)
    exact ⟨c, cs ++ s, by rw [hcons, List.cons_append], h⟩
  have hitems : (sepBy (readItem n) (char ',') <* char ']')
      (commaSeparated print es ++ ']' :: rest) =
        if es.all (fits n) then some (es, rest) else none := by
    refine sepBy_commaSeparated (by decide) ?_ (fun s => readItem_of_closing (.inl rfl) s) ?_
    · intro v hv c s hc
      exact readItem_print (hes v hv) (hread v hv) (follows_cons (hc.imp id .inl) s)
    · intro v hv s
      obtain ⟨c, cs, hcons, _, hc⟩ := hfirst v hv s
      rw [hcons]
      exact char_ne hc cs
  have hblank : (commaSeparated print es ++ ']' :: rest).dropWhile isBlank =
      commaSeparated print es ++ ']' :: rest := by
    refine dropWhile_commaSeparated (fun v hv s d hd => ?_) rfl rest
    obtain ⟨c, cs, hcons, hc, _⟩ := hfirst v hv s
    rw [hcons] at hd
    cases hd
    exact hc
  have hprint : (array es).print ++ rest = '[' :: (commaSeparated print es ++ ']' :: rest) := by
    simp [print, printElements_eq]
  rw [seqLeft_apply] at hitems
  simp only [readArray, map_apply, seqLeft_apply, seqRight_apply, hprint, char_self, many_apply,
    Option.bind_some, hblank, hitems]
  split <;> rfl

theorem readObject_print (hsorted : Dictionary.Sorted ms) (hms : ∀ m ∈ ms, m.2.Integral)
    (hread : ∀ m ∈ ms, m.2.ReadsBack n) (rest : List Char) :
    readObject n ((object ms).print ++ rest) =
      if ms.all fun m => m.2.fits n then some (object ms, rest) else none := by
  have hmembers : (sepBy (readMember n) (char ',') <* char '}')
      (commaSeparated printMember ms ++ '}' :: rest) =
        if ms.all fun m => m.2.fits n then some (ms, rest) else none := by
    refine sepBy_commaSeparated (by decide) ?_ readMember_of_closing fun m _ s => rfl
    intro m hm c s hc
    exact readMember_print (hms m hm) (hread m hm) (follows_cons (hc.imp id .inr) s)
  have hblank : (commaSeparated printMember ms ++ '}' :: rest).dropWhile isBlank =
      commaSeparated printMember ms ++ '}' :: rest := by
    refine dropWhile_commaSeparated (fun m hm s d hd => ?_) rfl rest
    cases hd
    rfl
  have hprint : (object ms).print ++ rest =
      '{' :: (commaSeparated printMember ms ++ '}' :: rest) := by
    simp [print, printMembers_eq]
  rw [seqLeft_apply] at hmembers
  simp only [readObject, map_apply, seqLeft_apply, seqRight_apply, hprint, char_self, many_apply,
    Option.bind_some, hblank, hmembers]
  split
  · simp [Dictionary.ofList_of_sorted hsorted]
  · rfl

mutual

/-- By induction on the value. Whatever is no container is read without regard to the depth. -/
theorem readsBack (v : Json) (hordered : v.Ordered) (hv : v.Integral) (n : Nat) :
    v.ReadsBack n := by
  intro s hs
  match v with
  | null => exact read_of_scalar rfl n
  | bool true => exact read_of_scalar rfl n
  | bool false => exact read_of_scalar rfl n
  | number (.double x) => exact absurd rfl (hv x)
  | number (.integer i) => exact read_of_scalar (readScalar_integer i hs) n
  | string k => exact read_of_scalar (readScalar_string k s) n
  | array es =>
    have hscalar : readScalar ((array es).print ++ s) = none := readScalar_container (.inl rfl) _
    cases n with
    | zero => rw [read_zero, hscalar]; rfl
    | succ n =>
      have hread := readsBack_elements es hordered.2 hv.2 n
      have hes := allElements_iff.mp hv.2
      have hobject : readObject n ((array es).print ++ s) = none := rfl
      rw [read_succ, hscalar, Option.none_or, hobject, Option.or_none, readArray_print hes hread,
        fits_array]
  | object ms =>
    have hscalar : readScalar ((object ms).print ++ s) = none := readScalar_container (.inr rfl) _
    cases n with
    | zero => rw [read_zero, hscalar]; rfl
    | succ n =>
      have hread := readsBack_members ms hordered.2 hv.2 n
      have hms := allMembers_iff.mp hv.2
      have hsorted : Dictionary.Sorted ms := hordered.1
      have harray : readArray n ((object ms).print ++ s) = none := rfl
      rw [read_succ, hscalar, Option.none_or, harray, Option.none_or,
        readObject_print hsorted hms hread, fits_object]

theorem readsBack_elements (es : List Json)
    (hordered : AllElements (fun v => Dictionary.Sorted v.members) es)
    (hes : AllElements (fun v => ∀ x, v ≠ .number (.double x)) es) (n : Nat) :
    ∀ v ∈ es, v.ReadsBack n := by
  match es with
  | [] => intro v hv; cases hv
  | v :: es =>
    refine List.forall_mem_cons.mpr ⟨?_, ?_⟩
    · exact readsBack v hordered.1 hes.1 n
    · exact readsBack_elements es hordered.2 hes.2 n

theorem readsBack_members (ms : List (String × Json))
    (hordered : AllMembers (fun v => Dictionary.Sorted v.members) ms)
    (hms : AllMembers (fun v => ∀ x, v ≠ .number (.double x)) ms) (n : Nat) :
    ∀ m ∈ ms, m.2.ReadsBack n := by
  match ms with
  | [] => intro m hm; cases hm
  | m :: ms =>
    refine List.forall_mem_cons.mpr ⟨?_, ?_⟩
    · exact readsBack m.2 hordered.1 hms.1 n
    · exact readsBack_members ms hordered.2 hms.2 n

end

/-- The text of a value is the text of that value alone, and of none if it nests too deep. -/
theorem parse?_text {v : Json} (hordered : v.Ordered) (hv : v.Integral) :
    parse? v.text = if v.depth ≤ maxDepth then some v else none := by
  have hread : padded isBlank (read maxDepth) (v.print ++ []) =
      if v.fits maxDepth then some (v, []) else none :=
    readItem_print hv (readsBack v hordered hv maxDepth) (by intro c hc; cases hc)
  rw [List.append_nil] at hread
  simp only [parse?, text, String.toList_ofList, all?, hread, fits, decide_eq_true_eq]
  split <;> split <;> simp_all

end Json
end JsonPath
