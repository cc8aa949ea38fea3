import JsonPath.Path.Parser
import JsonPath.Plan.Compile
import JsonPath.Proofs.Chain
import JsonPath.Proofs.Numeral

/-! The text of a path without calls reads back as the path, whatever its names and positions are. -/
namespace JsonPath

open Reader

namespace Path

/-- Escapes are undone up to the closing quote, whatever stands behind it. -/
theorem body_escapeProperty (cs rest : List Char) :
    (dialect '\'').body (cs.flatMap escapeProperty ++ '\'' :: rest) = some (cs, rest) := by
  induction cs with
  | nil => exact Text.Dialect.body_quote _ (by decide) rest
  | cons c cs ih =>
    rw [List.flatMap_cons, List.append_assoc, escapeProperty]
    by_cases hc : c = '\\' ∨ c = '\''
    · have hu : c ≠ 'u' := by rcases hc with rfl | rfl <;> decide
      have hx : (dialect '\'').escape? c = some c := by rcases hc with rfl | rfl <;> rfl
      rw [if_pos hc, List.cons_append, List.cons_append, List.nil_append,
        Text.Dialect.body_escape _ hu hx, ih]
      rfl
    · obtain ⟨hs, hq⟩ := not_or.mp hc
      rw [if_neg hc, List.cons_append, List.nil_append,
        Text.Dialect.body_bare _ hq hs rfl, ih]
      rfl

theorem readString_escapeProperty (name : String) (rest : List Char) :
    readString ('\'' :: (name.toList.flatMap escapeProperty ++ '\'' :: rest)) =
      some (name, rest) := by
  have h : (dialect '\'').read ('\'' :: (name.toList.flatMap escapeProperty ++ '\'' :: rest)) =
      some (name, rest) := by
    rw [Text.Dialect.read, if_pos (show '\'' = (dialect '\'').quote from rfl),
      body_escapeProperty]
    simp
  rw [readString, orElse_apply, h, Option.some_or]

theorem readString_of_ne {c : Char} (hs : c ≠ '\'') (hd : c ≠ '"') (s : List Char) :
    readString (c :: s) = none := by
  simp [readString, Text.Dialect.read, dialect, hs, hd]

theorem toList_propertyText (name : String) :
    (propertyText name).toList =
      '[' :: '\'' :: (name.toList.flatMap escapeProperty ++ ['\'', ']']) := by
  simp [propertyText]

theorem toList_indexText (i : Int) : (indexText i).toList = '[' :: (Text.ofInt i ++ [']']) := by
  simp [indexText]

theorem readIndex_ofInt (i : Int64) {rest : List Char}
    (hrest : ∀ c ∈ rest.head?, c.isDigit = false) :
    readIndex (Text.ofInt i.toInt ++ rest) = some (i, rest) := by
  have hbounds : Int64.minValue.toInt ≤ i.toInt ∧ i.toInt ≤ Int64.maxValue.toInt :=
    ⟨i.minValue_le_toInt, i.toInt_le⟩
  have hvalue := Numeral.signed_natAbs i.toInt
  simp only [readIndex, Numeral.minus_ofInt, Numeral.digits_toDigits i.toInt.natAbs hrest,
    Option.bind_eq_bind, Option.bind_some, decide_eq_true_eq, Numeral.natOfDigits_toDigits, hvalue,
    hbounds, and_self, if_true, Int64.ofInt_toInt]
  rfl

theorem dropWhile_of_not_blank {c : Char} (hc : Text.isBlank c = false) (s : List Char) :
    (c :: s).dropWhile Text.isBlank = c :: s := List.dropWhile_cons_of_neg (by simp [hc])

theorem spaced_of_not_blank {α : Type} (r : Reader α) {c : Char} (hc : Text.isBlank c = false)
    (s : List Char) : spaced r (c :: s) =
      (r (c :: s)).map fun q => (q.1, q.2.dropWhile Text.isBlank) := by
  rw [spaced, padded_apply, dropWhile_of_not_blank hc]

theorem spaced_eq {α : Type} {r : Reader α} {s rest : List Char} {a : α}
    (hs : ∀ c ∈ s.head?, 32 < c.toNat ∧ c.toNat < 0x85) (h : r s = some (a, ']' :: rest)) :
    spaced r s = some (a, ']' :: rest) := by
  refine padded_eq (fun c hc => ?_) ?_ h
  · exact Text.isBlank_eq_false (hs c hc).1 (hs c hc).2
  · intro c hc
    cases hc
    rfl

theorem readBracketed_propertyText (name : String) (rest : List Char) :
    readBracketed ((propertyText name).toList ++ rest) = some (.property name, rest) := by
  have hname := readString_escapeProperty name (']' :: rest)
  have hspaced : spaced (.property <$> readString <|> .index <$> readIndex)
      ('\'' :: (name.toList.flatMap escapeProperty ++ '\'' :: ']' :: rest)) =
        some (Segment.property name, ']' :: rest) := by
    refine spaced_eq (fun c hc => ?_) ?_
    · cases hc
      decide
    · simp only [orElse_apply, map_apply, hname, Option.map_some, Option.some_or]
  rw [toList_propertyText]
  simp [readBracketed, hspaced]

theorem readBracketed_indexText (i : Int64) (rest : List Char) :
    readBracketed ((indexText i.toInt).toList ++ rest) = some (.index i, rest) := by
  have hindex : readIndex (Text.ofInt i.toInt ++ ']' :: rest) = some (i, ']' :: rest) :=
    readIndex_ofInt i (by intro c hc; cases hc; rfl)
  have hspaced : spaced (.property <$> readString <|> .index <$> readIndex)
      (Text.ofInt i.toInt ++ ']' :: rest) = some (Segment.index i, ']' :: rest) := by
    obtain ⟨c, cs, hc, hrange⟩ := Numeral.ofInt_eq_cons i.toInt
    have hstring : readString (Text.ofInt i.toInt ++ ']' :: rest) = none := by
      rw [hc]
      have hsingle : c ≠ '\'' := by
        intro h
        rw [h] at hrange
        revert hrange
        decide
      have hdouble : c ≠ '"' := by
        intro h
        rw [h] at hrange
        revert hrange
        decide
      exact readString_of_ne hsingle hdouble _
    refine spaced_eq (fun d hd => ?_) ?_
    · rw [hc] at hd
      cases hd
      omega
    · simp only [orElse_apply, map_apply, hstring, hindex, Option.map_none, Option.map_some,
        Option.none_or]
  rw [toList_indexText]
  simp [readBracketed, hspaced]

theorem readSegment_of_bracket (argument : Reader Argument) (s : List Char) :
    readSegment argument ('[' :: s) = readBracketed ('[' :: s) := by
  simp [readSegment, readDotted, char_ne]

theorem readSegment_nil (argument : Reader Argument) : readSegment argument [] = none := rfl

theorem readSegment_text (argument : Reader Argument) {s : Segment} (hs : s.isCall = false)
    (rest : List Char) :
    readSegment argument ((Token.ofSegment s).text.toList ++ rest) = some (s, rest) := by
  cases s with
  | property name =>
    have h := readBracketed_propertyText name rest
    rw [toList_propertyText] at h
    simp only [Token.ofSegment, Token.text, toList_propertyText]
    exact (readSegment_of_bracket argument _).trans h
  | index i =>
    have h := readBracketed_indexText i rest
    rw [toList_indexText] at h
    simp only [Token.ofSegment, Token.text, toList_indexText]
    exact (readSegment_of_bracket argument _).trans h
  | call name as => cases hs

theorem toList_text_ofPath (p : Path) :
    (Plan.ofPath p).text.toList =
      p.root.symbol :: p.segments.flatMap fun s => (Token.ofSegment s).text.toList := by
  obtain ⟨root, ss⟩ := p
  simp [Plan.text, Plan.chain_ofPath, Token.ofSegments_eq, Token.text, List.flatMap_map]

theorem readRoot_symbol (root : Root) (s : List Char) :
    readRoot (root.symbol :: s) = some (root, s) := by
  cases root <;> simp [readRoot, Root.symbol, char_ne]

/-- An argument in parentheses: a path if it can be one. -/
def readArgument (literals bound : Nat) : Reader Argument :=
  Argument.path <$> read literals bound <|> Argument.literal <$> readLiteral literals

theorem read_succ (literals bound : Nat) :
    read literals (bound + 1) =
      (Path.mk <$> readRoot <*> repeated (readSegment (readArgument literals bound))) := rfl

/-- Only the symbol of a root begins a path. -/
theorem read_of_not_root (literals bound : Nat) {c : Char} (hc : c ≠ '$' ∧ c ≠ '@')
    (s : List Char) : read literals bound (c :: s) = none := by
  cases bound with
  | zero => rfl
  | succ bound =>
    have hroot : readRoot (c :: s) = none := by
      simp [readRoot, char_ne hc.1, char_ne hc.2]
    simp only [read_succ, seq_apply, map_apply, hroot, Option.map_none, Option.bind_none]

/-- What is left over when segments have been read back is read on. -/
theorem read_segments {literals bound : Nat} {ss : List Segment} {write : Segment → List Char}
    (h : ∀ s ∈ ss, ∀ rest, readSegment (readArgument literals bound) (write s ++ rest) =
      some (s, rest)) (root : Root) (rest : List Char) :
    ∃ n, rest.length ≤ n ∧ read literals (bound + 1) (root.symbol :: (ss.flatMap write ++ rest)) =
      let more := repeatUpTo (readSegment (readArgument literals bound)) n rest
      some (⟨root, ss ++ more.1⟩, more.2) := by
  have hne : ∀ s ∈ ss, write s ≠ [] := by
    intro s hs hnil
    have hnone := h s hs []
    rw [hnil] at hnone
    cases hnone
  obtain ⟨n, hn, hsegments⟩ := repeated_flatMap hne h rest
  refine ⟨n, hn, ?_⟩
  simp only [read_succ, seq_apply, map_apply, readRoot_symbol, hsegments, Option.map_some,
    Option.bind_some]

theorem isBlank_symbol (root : Root) : Text.isBlank root.symbol = false := by
  cases root <;> decide

section
variable {text : String} {root : Root}

/-- A text from its root on is a path if it is read to its end. -/
theorem parse?_of_read {cs rest : List Char} {p : Path} (htext : text.toList = root.symbol :: cs)
    (hread : read (text.toList.length + 1) (text.toList.length + 1) (root.symbol :: cs) =
      some (p, rest)) (hrest : ∀ c ∈ rest.head?, Text.isBlank c = false) :
    parse? text = if rest.isEmpty then some p else none := by
  have hroot : ∀ c ∈ (root.symbol :: cs).head?, Text.isBlank c = false := by
    intro c hc
    cases hc
    exact isBlank_symbol root
  have hspaced := padded_eq hroot hrest hread
  simp only [htext] at hspaced
  simp only [parse?, all?, spaced, htext, hspaced]
  cases rest <;> rfl

/-- A text whose segments are read one by one is a path. -/
theorem parse?_of_segments {ss : List Segment} {write : Segment → List Char}
    (htext : text.toList = root.symbol :: ss.flatMap write)
    (h : ∀ s ∈ ss, ∀ rest, readSegment (readArgument (text.toList.length + 1) text.toList.length)
      (write s ++ rest) = some (s, rest)) :
    parse? text = some ⟨root, ss⟩ := by
  obtain ⟨n, _, hread⟩ := read_segments h root []
  simp only [repeatUpTo_of_none (readSegment_nil _), List.append_nil] at hread
  rw [parse?_of_read htext hread (by simp)]
  rfl

end

theorem parse?_text (p : Path) (hp : ∀ s ∈ p.segments, s.isCall = false) :
    parse? (Plan.ofPath p).text = some p := by
  obtain ⟨root, ss⟩ := p
  exact parse?_of_segments (toList_text_ofPath _) fun s hs => readSegment_text _ (hp s hs)

end Path
end JsonPath
