import JsonPath.Proofs.Dictionary
import JsonPath.Proofs.Grammar
import JsonPath.Proofs.Location

/-! JSON values as a text writes them, and the grammar of JSON texts. A text may give one object
several members of the same name, of which its value keeps only the last. Here the members are kept
as they stand in the text, all of them and in their order. -/
namespace JsonPath

namespace Json

/-- A value as it is written. -/
inductive Written where
  | null
  | bool (b : Bool)
  | number (n : Number)
  | string (s : String)
  | array (elements : List Written)
  | object (entries : List (String × Written))

namespace Written

mutual

/-- The value that is written. -/
def value : Written → Json
  | null => .null
  | bool b => .bool b
  | number n => .number n
  | string s => .string s
  | array es => .array (values es)
  | object es => .object (Dictionary.ofList (members es))

def values : List Written → List Json
  | [] => []
  | w :: ws => w.value :: values ws

def members : List (String × Written) → List (String × Json)
  | [] => []
  | (name, w) :: es => (name, w.value) :: members es

end

def elements : Written → List Written
  | array es => es
  | _ => []

/-- The entries of an object, in the order of the text. -/
def entries : Written → List (String × Written)
  | object es => es
  | _ => []

/-- What is written at a step: of the entries with one name, the last. -/
def step? (w : Written) : Step → Option Written
  | .member name => Dictionary.lookup? name w.entries.reverse
  | .element place => w.elements[place]?

/-- What is written at a location. -/
def at? (w : Written) : Location → Option Written
  | [] => some w
  | t :: l => (w.step? t).bind (·.at? l)

theorem values_eq (ws : List Written) : values ws = ws.map value := by
  induction ws with
  | nil => rfl
  | cons w ws ih => rw [values, ih, List.map_cons]

theorem members_eq (es : List (String × Written)) :
    members es = es.map fun e => (e.1, e.2.value) := by
  induction es with
  | nil => rfl
  | cons e es ih => rw [members, ih, List.map_cons]

theorem lookup?_members (name : String) (es : List (String × Written)) :
    Dictionary.lookup? name (members es) = (Dictionary.lookup? name es).map value := by
  rw [members_eq]
  induction es with
  | nil => rfl
  | cons e es ih =>
    obtain ⟨key, w⟩ := e
    rw [List.map_cons, Dictionary.lookup?_cons, Dictionary.lookup?_cons, ih]
    split <;> rfl

theorem value?_value (w : Written) (t : Step) : t.value? w.value = (w.step? t).map value := by
  cases t with
  | member name =>
    cases w with
    | object es =>
      have hreverse : (members es).reverse = members es.reverse := by
        rw [members_eq, members_eq, List.map_reverse]
      have hlookup : Step.value? (object es).value (.member name) =
          Dictionary.lookup? name (Dictionary.ofList (members es)) := rfl
      rw [hlookup, Dictionary.lookup?_ofList, hreverse, lookup?_members]
      rfl
    | _ => rfl
  | element place =>
    cases w with
    | array es =>
      have helement : Step.value? (array es).value (.element place) = (values es)[place]? := rfl
      rw [helement, values_eq, List.getElem?_map]
      rfl
    | _ => rfl

theorem at?_value (w : Written) (l : Location) : w.value.at? l = (w.at? l).map value := by
  induction l generalizing w with
  | nil => rfl
  | cons t l ih =>
    rw [Json.at?, at?, value?_value]
    cases w.step? t with
    | none => rfl
    | some u => exact ih u

/-- Where the value holds an object, an object is written. -/
theorem exists_entries {w : Written} {l : Location} {ms : List (String × Json)}
    (h : w.value.at? l = some (.object ms)) :
    ∃ es, w.at? l = some (object es) ∧ ms = Dictionary.ofList (members es) := by
  rw [at?_value, Option.map_eq_some_iff] at h
  obtain ⟨u, hu, hvalue⟩ := h
  cases u with
  | object es =>
    cases hvalue
    exact ⟨es, hu, rfl⟩
  | _ => cases hvalue

theorem mem_keys_iff {es : List (String × Written)} {k : String} :
    k ∈ Dictionary.keys (Dictionary.ofList (members es)) ↔ ∃ u, (k, u) ∈ es := by
  rw [Dictionary.mem_keys_ofList, members_eq]
  simp

/-- The value of a name is that of its last entry. -/
theorem lookup?_of_last {es before after : List (String × Written)} {k : String} {u : Written}
    (hes : es = before ++ (k, u) :: after) (h : ∀ v, (k, v) ∉ after) :
    Dictionary.lookup? k (Dictionary.ofList (members es)) = some u.value := by
  have hmembers : members es = members before ++ (k, u.value) :: members after := by
    simp only [members_eq, hes, List.map_append, List.map_cons]
  rw [hmembers]
  apply Dictionary.lookup?_ofList_of_last
  intro v hv
  rw [members_eq, List.mem_map] at hv
  obtain ⟨e, he, heq⟩ := hv
  cases heq
  exact h _ he

end Written

section Grammar
variable {α : Type}

/-- An item with a comma before it. -/
inductive Further (G : Phrase α) : Phrase α where
  | intro {t : List Char} {a : α} (h : G t a) : Further G (',' :: t) a

/-- Items with commas between them, or blanks alone. -/
inductive Listed (G : Phrase α) : Phrase (List α) where
  | none {w : List Char} (hw : Blanks isBlank w) : Listed G w []
  | some {t ts : List Char} {a : α} {as : List α} (h : G t a)
      (hs : Many (Further G) ts as) : Listed G (t ++ ts) (a :: as)

/-- What stands for a character that is escaped. A character beyond `U+FFFF` takes two units. -/
inductive EscapeText : Phrase Char where
  | short {c x : Char} (h : Text.escape? c = some x) : EscapeText ['\\', c] x
  | unit {a b c d x : Char} {n : Nat} (hn : Text.hexUnit? a b c d = some n)
      (hx : Text.char? n = some x) : EscapeText ['\\', 'u', a, b, c, d] x
  | pair {a b c d e f g h x : Char} {n m : Nat} (hn : Text.hexUnit? a b c d = some n)
      (hm : Text.hexUnit? e f g h = some m) (hx : Text.pair? n m = some x) :
    EscapeText ['\\', 'u', a, b, c, d, '\\', 'u', e, f, g, h] x

/-- Controls below `U+0020` must be escaped. -/
inductive CharText : Phrase Char where
  | raw {c : Char} (hc : 32 ≤ c.toNat) (hq : c ≠ '"') (hs : c ≠ '\\') : CharText [c] c
  | escape {t : List Char} {x : Char} (h : EscapeText t x) : CharText t x

inductive StringText : Phrase String where
  | intro {t cs : List Char} (h : Many CharText t cs) :
    StringText ('"' :: (t ++ ['"'])) (.ofList cs)

inductive ScalarText : Phrase Written where
  | null : ScalarText ['n', 'u', 'l', 'l'] .null
  | true : ScalarText ['t', 'r', 'u', 'e'] (.bool true)
  | false : ScalarText ['f', 'a', 'l', 's', 'e'] (.bool false)
  | number {t : List Char} {x : Number} (h : Path.NumberText t x) : ScalarText t (.number x)
  | string {t : List Char} {s : String} (h : StringText t s) : ScalarText t (.string s)

inductive MemberText (G : Phrase Written) : Phrase (String × Written) where
  | intro {k t : List Char} {name : String} {w : Written} (hk : Padded isBlank StringText k name)
      (h : Padded isBlank G t w) : MemberText G (k ++ ':' :: t) (name, w)

inductive ContainerText (G : Phrase Written) : Phrase Written where
  | array {t : List Char} {ws : List Written} (h : Listed (Padded isBlank G) t ws) :
    ContainerText G ('[' :: (t ++ [']'])) (.array ws)
  | object {t : List Char} {es : List (String × Written)} (h : Listed (MemberText G) t es) :
    ContainerText G ('{' :: (t ++ ['}'])) (.object es)

/-- The texts of values whose containers nest at most so deep. -/
def ValueText : Nat → Phrase Written
  | 0 => ScalarText
  | depth + 1 => fun t w => ScalarText t w ∨ ContainerText (ValueText depth) t w

/-- Whether a JSON text writes a value in this way. -/
def Writes (text : String) (w : Written) : Prop :=
  Padded isBlank (ValueText maxDepth) text.toList w

theorem ScalarText.valueText {t : List Char} {w : Written} (h : ScalarText t w) (depth : Nat) :
    ValueText depth t w := by
  cases depth with
  | zero => exact h
  | succ depth => exact .inl h

theorem ContainerText.valueText {depth : Nat} {t : List Char} {w : Written}
    (h : ContainerText (ValueText depth) t w) : ValueText (depth + 1) t w := .inr h

/-- Most characters stand for themselves. -/
theorem StringText.raw {cs : List Char} (h : ∀ c ∈ cs, 32 ≤ c.toNat ∧ c ≠ '"' ∧ c ≠ '\\') :
    StringText ('"' :: (cs ++ ['"'])) (.ofList cs) := by
  have hchars : Many CharText cs cs := by
    induction cs with
    | nil => exact .nil
    | cons c cs ih =>
      obtain ⟨⟨hc, hq, hs⟩, hcs⟩ := List.forall_mem_cons.mp h
      exact .cons (.raw hc hq hs) (ih hcs)
  exact .intro hchars

end Grammar

end Json
end JsonPath
