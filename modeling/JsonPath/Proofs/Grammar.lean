import JsonPath.Path.Parser
import JsonPath.Proofs.Phrase

/-! The grammar of path texts. Each rule puts the text of a whole together from the texts of its
parts; none of them looks at what stands around. -/
namespace JsonPath

namespace Path

section Repetition
variable {α : Type}

/-- A punctuation mark with blanks around it. -/
inductive Mark (c : Char) : List Char → Prop where
  | intro {w w' : List Char} (hw : Blanks Text.isBlank w) (hw' : Blanks Text.isBlank w') :
    Mark c (w ++ c :: w')

theorem Mark.bare (c : Char) : Mark c [c] := .intro blanks_nil blanks_nil

theorem Mark.length_pos {c : Char} {u : List Char} (h : Mark c u) : 0 < u.length := by
  obtain ⟨_, _⟩ := h
  rw [List.length_append, List.length_cons]
  omega

inductive Enclosed (opening closing : Char) (G : Phrase α) : Phrase α where
  | intro {u t u' : List Char} {a : α} (hu : Mark opening u) (h : G t a) (hu' : Mark closing u') :
    Enclosed opening closing G (u ++ (t ++ u')) a

/-- At least one item, and commas between them. -/
inductive Separated (G : Phrase α) : Phrase (List α) where
  | one {t : List Char} {a : α} (h : G t a) : Separated G t [a]
  | cons {t u ts : List Char} {a : α} {as : List α} (h : G t a) (hu : Mark ',' u)
      (hs : Separated G ts as) : Separated G (t ++ (u ++ ts)) (a :: as)

inductive Listed (G : Phrase α) : Phrase (List α) where
  | none : Listed G [] []
  | some {t : List Char} {as : List α} (h : Separated G t as) : Listed G t as

/-- The last item may have a comma behind it. -/
inductive Items (G : Phrase α) : Phrase (List α) where
  | listed {t : List Char} {as : List α} (h : Listed G t as) : Items G t as
  | trailing {t u : List Char} {as : List α} (h : Separated G t as) (hu : Mark ',' u) :
    Items G (t ++ u) as

section
variable {G H : Phrase α} {t : List Char} {as : List α}

/-! The parts of a text are not longer than the text, so what is known of shorter parts carries over
to the rule for the whole. -/

theorem Separated.imp (h : Separated G t as)
    (hGH : ∀ u a, u.length ≤ t.length → G u a → H u a) : Separated H t as := by
  induction h with
  | one h => exact .one (hGH _ _ (Nat.le_refl _) h)
  | cons h hu _ ih =>
    simp only [List.length_append] at hGH
    exact .cons (hGH _ _ (by omega) h) hu (ih fun u a hu => hGH u a (by omega))

theorem Listed.imp (h : Listed G t as) (hGH : ∀ u a, u.length ≤ t.length → G u a → H u a) :
    Listed H t as := by
  cases h with
  | none => exact .none
  | some h => exact .some (h.imp hGH)

theorem Items.imp (h : Items G t as) (hGH : ∀ u a, u.length ≤ t.length → G u a → H u a) :
    Items H t as := by
  cases h with
  | listed h => exact .listed (h.imp hGH)
  | trailing h hu =>
    simp only [List.length_append] at hGH
    exact .trailing (h.imp fun u a hu => hGH u a (by omega)) hu

theorem Enclosed.imp {opening closing : Char} {a : α} (h : Enclosed opening closing G t a)
    (hGH : ∀ u a, u.length < t.length → G u a → H u a) : Enclosed opening closing H t a := by
  obtain ⟨hu, h, hu'⟩ := h
  have := hu.length_pos
  have := hu'.length_pos
  simp only [List.length_append] at hGH
  exact .intro hu (hGH _ _ (by omega) h) hu'

end

theorem Separated.length_le {G : Phrase α} {t : List Char} {as : List α} (h : Separated G t as) :
    as.length ≤ t.length + 1 := by
  induction h with
  | one => simp
  | cons _ hu _ ih =>
    have := hu.length_pos
    simp only [List.length_cons, List.length_append]
    omega

end Repetition

/-- What a character after a backslash stands for. -/
def escapes : List (Char × Char) :=
  [('\'', '\''), ('"', '"'), ('\\', '\\'), ('/', '/'), ('b', Char.ofNat 8), ('f', Char.ofNat 12),
    ('n', '\n'), ('r', '\r'), ('t', '\t')]

/-- A hexadecimal digit, in lower or upper case, and its value. -/
def HexDigit (c : Char) (k : Nat) : Prop :=
  k < 16 ∧ (c = Nat.digitChar k ∨ c = (Nat.digitChar k).toUpper)

/-- Four digits write a code point that is no surrogate. -/
inductive EscapeText : Phrase Char where
  | short {c x : Char} (h : (c, x) ∈ escapes) : EscapeText ['\\', c] x
  | unicode {a b c d : Char} {i j k l n : Nat} (ha : HexDigit a i) (hb : HexDigit b j)
      (hc : HexDigit c k) (hd : HexDigit d l) (hn : n = ((i * 16 + j) * 16 + k) * 16 + l)
      (hs : ¬ (0xd800 ≤ n ∧ n ≤ 0xdfff)) :
    EscapeText ['\\', 'u', a, b, c, d] (Char.ofNat n)

inductive CharText (quote : Char) : Phrase Char where
  | raw {c : Char} (hq : c ≠ quote) (hs : c ≠ '\\') : CharText quote [c] c
  | escape {t : List Char} {x : Char} (h : EscapeText t x) : CharText quote t x

inductive StringText : Phrase String where
  | intro {quote : Char} {t cs : List Char} (hq : quote = '\'' ∨ quote = '"')
      (h : Many (CharText quote) t cs) : StringText (quote :: (t ++ [quote])) (.ofList cs)

def Digits (t : List Char) : Prop := t ≠ [] ∧ ∀ c ∈ t, c.isDigit = true

/-- Whether there is a minus sign. -/
inductive SignText : Phrase Bool where
  | none : SignText [] false
  | minus : SignText ['-'] true

inductive FractionText : Phrase (Option (List Char)) where
  | none : FractionText [] none
  | some {ds : List Char} (h : Digits ds) : FractionText ('.' :: ds) (some ds)

inductive ExponentSignText : Phrase Bool where
  | sign {t : List Char} {negative : Bool} (h : SignText t negative) : ExponentSignText t negative
  | plus : ExponentSignText ['+'] false

inductive ExponentText : Phrase (Option Numeral.Exponent) where
  | none : ExponentText [] none
  | some {e : Char} {s ds : List Char} {negative : Bool} (he : e = 'e' ∨ e = 'E')
      (hs : ExponentSignText s negative) (h : Digits ds) :
    ExponentText (e :: (s ++ ds)) (some ⟨negative, ds⟩)

inductive NumeralText : Phrase Numeral where
  | intro {s ds f e : List Char} {negative : Bool} {fraction : Option (List Char)}
      {exponent : Option Numeral.Exponent} (hs : SignText s negative) (h : Digits ds)
      (hf : FractionText f fraction) (he : ExponentText e exponent) :
    NumeralText (s ++ (ds ++ (f ++ e))) ⟨negative, ds, fraction, exponent⟩

/-- A numeral that JSON admits. -/
inductive NumberText : Phrase Number where
  | intro {t : List Char} {n : Numeral} {x : Number} (h : NumeralText t n)
      (hx : n.value? = some x) : NumberText t x

/-- An integer of 64 bits. -/
inductive IndexText : Phrase Int64 where
  | intro {s ds : List Char} {negative : Bool} {i : Int64} (hs : SignText s negative)
      (h : Digits ds) (hi : i.toInt =
        if negative then -(Nat.ofDigitChars 10 ds 0 : Int) else Nat.ofDigitChars 10 ds 0) :
    IndexText (s ++ ds) i

inductive MemberText (G : Phrase Json) : Phrase (String × Json) where
  | intro {k u t : List Char} {name : String} {v : Json}
      (hk : Padded Text.isBlank StringText k name) (hu : Mark ':' u) (h : G t v) :
    MemberText G (k ++ (u ++ t)) (name, v)

theorem MemberText.imp {G H : Phrase Json} {t : List Char} {m : String × Json}
    (h : MemberText G t m) (hGH : ∀ u v, u.length ≤ t.length → G u v → H u v) :
    MemberText H t m := by
  obtain ⟨hk, hu, h⟩ := h
  simp only [List.length_append] at hGH
  exact .intro hk hu (hGH _ _ (by omega) h)

/-- A literal without the blanks around it. Of equal names in an object the last one counts. -/
inductive BareText : Phrase Json where
  | null : BareText ['n', 'u', 'l', 'l'] .null
  | true : BareText ['t', 'r', 'u', 'e'] (.bool true)
  | false : BareText ['f', 'a', 'l', 's', 'e'] (.bool false)
  | number {t : List Char} {x : Number} (h : NumberText t x) : BareText t (.number x)
  | string {t : List Char} {s : String} (h : StringText t s) : BareText t (.string s)
  | array {t : List Char} {vs : List Json}
      (h : Enclosed '[' ']' (Items (Padded Text.isBlank BareText)) t vs) :
    BareText t (.array vs)
  | object {t : List Char} {ms : List (String × Json)}
      (h : Enclosed '{' '}' (Items (MemberText (Padded Text.isBlank BareText))) t ms) :
    BareText t (.object (Dictionary.ofList ms))

abbrev LiteralText : Phrase Json := Padded Text.isBlank BareText

inductive NameText : Phrase String where
  | intro {c : Char} {cs : List Char} (hc : isIdentifierStart c = true)
      (hcs : ∀ d ∈ cs, isIdentifierRest d = true) : NameText (c :: cs) (.ofList (c :: cs))

/-- A property name or a position. -/
inductive BracketText : Phrase Segment where
  | property {t : List Char} {name : String} (h : StringText t name) :
    BracketText t (.property name)
  | index {t : List Char} {i : Int64} (h : IndexText t i) : BracketText t (.index i)

mutual

/-- A path without the blanks around it. -/
inductive PathText : Phrase Path where
  | intro {root : Root} {t : List Char} {ss : List Segment} (h : Many SegmentText t ss) :
    PathText (root.symbol :: t) ⟨root, ss⟩

inductive SegmentText : Phrase Segment where
  | property {t : List Char} {name : String} (h : NameText t name) :
    SegmentText ('.' :: t) (.property name)
  | call {n u t : List Char} {name : String} {as : List Argument} (hn : NameText n name)
      (hu : Mark '(' u) (h : Listed (Padded Text.isBlank ArgumentText) t as) :
    SegmentText ('.' :: (n ++ (u ++ (t ++ [')'])))) (.call name as)
  | bracket {t : List Char} {s : Segment} (h : Padded Text.isBlank BracketText t s) :
    SegmentText ('[' :: (t ++ [']'])) s

inductive ArgumentText : Phrase Argument where
  | path {t : List Char} {p : Path} (h : PathText t p) : ArgumentText t (.path p)
  | literal {t : List Char} {v : Json} (h : LiteralText t v) : ArgumentText t (.literal v)

end

/-- Whether the grammar derives a text with a path as its syntax tree. -/
def Derives (text : String) (p : Path) : Prop := Padded Text.isBlank PathText text.toList p

end Path
end JsonPath
