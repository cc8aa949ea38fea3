import JsonPath.Proofs.JsonText
import JsonPath.Proofs.Recognition

/-! JSON texts as literal arguments. They are literals of the same value, but for those that escape
a character as a surrogate pair. -/
namespace JsonPath

open Reader

namespace Text

/-- Whether four hexadecimal digits of a surrogate stand first. -/
def beginsSurrogate : List Char → Bool
  | a :: b :: c :: d :: _ => (hexUnit? a b c d).any fun n => 0xd800 ≤ n && n ≤ 0xdfff
  | _ => false

/-- Whether a text escapes a surrogate. -/
def escapesSurrogate : List Char → Bool
  | '\\' :: c :: s => (c == 'u' && beginsSurrogate s) || escapesSurrogate s
  | _ :: s => escapesSurrogate s
  | [] => false

theorem escapesSurrogate_cons {c : Char} (hc : c ≠ '\\') (s : List Char) :
    escapesSurrogate (c :: s) = escapesSurrogate s := by
  rw [escapesSurrogate]
  rintro d t h -
  exact hc h

theorem escapesSurrogate_hexDigit {c : Char} {k : Nat} (h : Path.HexDigit c k) (s : List Char) :
    escapesSurrogate (c :: s) = escapesSurrogate s := by
  refine escapesSurrogate_cons ?_ s
  rintro rfl
  rw [← hexDigit?_eq_some_iff] at h
  cases h

theorem escapesSurrogate_escape {t : List Char} {x : Char} (h : Path.EscapeText t x)
    (s : List Char) : escapesSurrogate (t ++ s) = escapesSurrogate s := by
  cases h with
  | @short c x h =>
    have hall : ∀ e ∈ Path.escapes, (e.1 == 'u') = false := by decide
    rw [List.cons_append, List.cons_append, List.nil_append, escapesSurrogate, hall _ h,
      Bool.false_and, Bool.false_or]
  | @unicode a b c d i j k l n ha hb hc hd hn hs =>
    have hunit : beginsSurrogate (a :: b :: c :: d :: s) = false := by
      simp only [beginsSurrogate, hexUnit?_eq_some ha hb hc hd, Option.any_some, ← hn,
        Bool.and_eq_false_iff, decide_eq_false_iff_not]
      omega
    simp only [List.cons_append, List.nil_append, escapesSurrogate, hunit, Bool.and_false,
      Bool.false_or, escapesSurrogate_hexDigit ha, escapesSurrogate_hexDigit hb,
      escapesSurrogate_hexDigit hc, escapesSurrogate_hexDigit hd]

/-- No part of a path escapes a surrogate. -/
theorem kept_escapesSurrogate (b : Bool) : Kept fun s => escapesSurrogate s = b where
  skip hc h := by rwa [escapesSurrogate_cons hc] at h
  escape ht h := by rwa [escapesSurrogate_escape ht] at h

theorem beginsSurrogate_append {s : List Char} (h : beginsSurrogate s = true) (t : List Char) :
    beginsSurrogate (s ++ t) = true := by
  unfold beginsSurrogate at h
  split at h
  · exact h
  · cases h

theorem escapesSurrogate_append {s : List Char} (h : escapesSurrogate s = true) (t : List Char) :
    escapesSurrogate (s ++ t) = true := by
  fun_induction escapesSurrogate s with
  | case1 c s ih =>
    rw [Bool.or_eq_true, Bool.and_eq_true] at h
    rw [List.cons_append, List.cons_append, escapesSurrogate, Bool.or_eq_true, Bool.and_eq_true]
    exact h.imp (fun ⟨hc, hs⟩ => ⟨hc, beginsSurrogate_append hs t⟩) ih
  | case2 c s hc ih =>
    have hne : c ≠ '\\' := by
      rintro rfl
      cases s with
      | nil => cases h
      | cons d s => exact hc d s rfl rfl
    rw [List.cons_append, escapesSurrogate_cons hne]
    exact ih h
  | case3 => cases h

/-- Four digits that write no character write a surrogate. -/
theorem beginsSurrogate_of_char? {a b c d : Char} {n : Nat} (hn : hexUnit? a b c d = some n)
    (hx : char? n = none) (s : List Char) : beginsSurrogate (a :: b :: c :: d :: s) = true := by
  have hlt : n < 0x10000 := by
    simp only [hexUnit?, Option.bind_eq_bind, Option.bind_eq_some_iff, Option.pure_def,
      Option.some.injEq, hexDigit?_eq_some_iff] at hn
    obtain ⟨i, ha, j, hb, k, hc, l, hd, rfl⟩ := hn
    have hdigits : i < 16 ∧ j < 16 ∧ k < 16 ∧ l < 16 := ⟨ha.1, hb.1, hc.1, hd.1⟩
    omega
  have hinvalid : ¬ n.isValidChar := by
    intro h
    rw [char?, if_pos h] at hx
    cases hx
  unfold Nat.isValidChar at hinvalid
  simp only [beginsSurrogate, hn, Option.any_some, Bool.and_eq_true, decide_eq_true_eq]
  omega

end Text

namespace Json

variable {α : Type} {G : Phrase α}

/-- Whether no surrogate is escaped. -/
def Plain (s : List Char) : Prop := Text.escapesSurrogate s = false

theorem kept_plain : Kept Plain := Text.kept_escapesSurrogate false

theorem isBlank_of_isBlank {c : Char} (h : isBlank c = true) : Text.isBlank c = true := by
  simp only [isBlank, Bool.or_eq_true, beq_iff_eq] at h
  rcases h with ((rfl | rfl) | rfl) | rfl <;> decide

theorem readString_takes : readString.Takes Plain Path.StringText := by
  refine Text.Dialect.read_takes kept_plain (.inr rfl) (fun _ _ => Path.mem_escapes_of_escape?)
    fun {a b c d s n} hs hn hx => ?_
  rw [Plain, Text.escapesSurrogate, Text.beginsSurrogate_of_char? hn hx] at hs
  cases hs

theorem padded_takes {r : Reader α} (h : r.Takes Plain G) :
    (padded isBlank r).Takes Plain (Padded Text.isBlank G) :=
  (h.padded kept_plain (by decide)).mono fun _ _ ht => ht.mono fun _ => isBlank_of_isBlank

theorem comma_takes : (char ',').Takes Plain fun t _ => Path.Mark ',' t := by
  refine (takes_char kept_plain (by decide)).mono ?_
  rintro t _ rfl
  exact .bare ','

/-- Of the blanks in a container those before its first item are read on their own. -/
theorem bracketed_takes {opening closing : Char} (ho : opening ≠ '\\') (hc : closing ≠ '\\')
    {r : Reader α} (h : r.Takes Plain G) :
    (char opening *> many isBlank *> r <* char closing).Takes Plain
      (Path.Enclosed opening closing G) := by
  have hopening : (char opening *> many isBlank).Takes Plain fun t _ => Path.Mark opening t := by
    refine (takes_char kept_plain ho).seqRight fun t _ ht => ?_
    refine (Takes.blanks kept_plain (by decide)).mono fun w _ hw => ?_
    rw [ht]
    exact .intro blanks_nil (hw.mono fun _ => isBlank_of_isBlank)
  refine hopening.between h (takes_char kept_plain hc) ?_
  intro u v w a _ _ hu hv hw
  subst hw
  exact .intro hu hv (.bare closing)

theorem readScalar_takes : readScalar.Takes Plain Path.BareText := by
  refine (Takes.word kept_plain (by decide) .null).orElse ?_
  refine (Takes.word kept_plain (by decide) .true).orElse ?_
  refine (Takes.word kept_plain (by decide) .false).orElse ?_
  exact (readString_takes.map fun _ _ => .string).orElse
    ((Number.read_takes kept_plain).map fun _ _ => .number)

section
variable {n : Nat} (h : (read n).Takes Plain Path.BareText)
include h

theorem readArray_takes : (readArray n).Takes Plain Path.BareText :=
  (bracketed_takes (by decide) (by decide) ((padded_takes h).sepBy comma_takes)).map
    fun _ _ hes => .array (hes.imp fun _ _ _ => .listed)

theorem readObject_takes : (readObject n).Takes Plain Path.BareText := by
  have hmember : (readMember n).Takes Plain (Path.MemberText Path.LiteralText) := by
    refine (padded_takes readString_takes).bind fun k name hk => ?_
    refine (takes_char kept_plain (by decide)).bind fun u _ hu => ?_
    refine (padded_takes h).bind fun t v ht => takes_pure ?_
    rw [List.append_nil, hu]
    exact .intro hk (.bare ':') ht
  have hmembers :
      (char '{' *> many isBlank *> sepBy (readMember n) (char ',') <* char '}').Takes Plain
        (Path.Enclosed '{' '}' (Path.Listed (Path.MemberText Path.LiteralText))) :=
    bracketed_takes (by decide) (by decide) (hmember.sepBy comma_takes)
  refine Takes.map (G := fun t ms => ∃ es, ms = Dictionary.ofList es ∧
    Path.Enclosed '{' '}' (Path.Items (Path.MemberText Path.LiteralText)) t es) ?_ ?_
  · exact hmembers.map fun _ es hes => ⟨es, rfl, hes.imp fun _ _ _ => .listed⟩
  · rintro t _ ⟨es, rfl, hes⟩
    exact .object hes

end

theorem read_takes (n : Nat) : (read n).Takes Plain Path.BareText := by
  induction n with
  | zero =>
    have hread : read 0 = readScalar := funext read_zero
    rw [hread]
    exact readScalar_takes
  | succ n ih =>
    have hread : read (n + 1) = (readScalar <|> readArray n <|> readObject n) := by
      funext s
      rw [read_succ, orElse_apply, orElse_apply]
    rw [hread]
    exact readScalar_takes.orElse ((readArray_takes ih).orElse (readObject_takes ih))

theorem literalText_of_parse? {text : String} {v : Json} (hs : Plain text.toList)
    (h : parse? text = some v) : Path.LiteralText text.toList v := by
  unfold parse? all? at h
  split at h
  next w hw =>
    cases h
    obtain ⟨_, t, ht, hv⟩ := padded_takes (read_takes maxDepth) _ _ _ hs hw
    rw [List.append_nil] at ht
    rwa [ht]
  next => cases h

end Json

namespace Path

/-- The text of a call on an argument. -/
def callText (argument : String) : String := "$.f(" ++ argument ++ ")"

theorem toList_callText (argument : String) : (callText argument).toList =
    Root.document.symbol :: '.' :: (['f'] ++ '(' :: (argument.toList ++ [')'])) := by
  simp [callText, Root.symbol]

/-- What escapes a surrogate is no argument. -/
theorem parse?_callText_eq_none {argument : String}
    (h : Text.escapesSurrogate argument.toList = true) : parse? (callText argument) = none := by
  have hs : Text.escapesSurrogate (callText argument).toList = true := by
    rw [toList_callText, Text.escapesSurrogate_cons (by decide),
      Text.escapesSurrogate_cons (by decide), List.singleton_append,
      Text.escapesSurrogate_cons (by decide), Text.escapesSurrogate_cons (by decide)]
    exact Text.escapesSurrogate_append h _
  rw [Option.eq_none_iff_forall_not_mem]
  intro p hp
  exact absurd (derives_of_parse? (Text.kept_escapesSurrogate true) hs hp).1 (by decide)

/-- A JSON text is a literal argument of the value that it has as a document, unless it escapes a
character as a surrogate pair. -/
theorem parse?_callText {text : String} {v : Json} (h : Json.parse? text = some v) :
    parse? (callText text) =
      if Text.escapesSurrogate text.toList then none
      else some ⟨.document, [.call "f" [.literal v]]⟩ := by
  split
  next hs => exact parse?_callText_eq_none hs
  next hs =>
    have hname : NameText ['f'] "f" := .intro (by decide) (by simp)
    have hliteral := Json.literalText_of_parse? (by simpa [Json.Plain] using hs) h
    have hderives := derives_call .document hname hliteral
    rw [← toList_callText, String.ofList_toList] at hderives
    exact parse?_of_derives hderives

/-- One unit is a character, two are none. -/
theorem parse?_callText_unicode :
    parse? (callText "[\"\\u00e9\"]") =
        some ⟨.document, [.call "f" [.literal (.array [.string "é"])]]⟩ ∧
      parse? (callText "\"\\ud83d\\ude00\"") = none :=
  ⟨parse?_callText (by cbv), parse?_callText (v := .string "😀") (by cbv)⟩

/-- The pair is JSON all the same. -/
theorem json_not_argument : ¬ ∀ (text : String) (v : Json), Json.parse? text = some v →
    parse? (callText text) = some ⟨.document, [.call "f" [.literal v]]⟩ := by
  intro h
  have hjson : Json.parse? "\"\\ud83d\\ude00\"" = some (.string "😀") := by cbv
  have hnone : parse? (callText "\"\\ud83d\\ude00\"") = none := parse?_callText_eq_none (by cbv)
  rw [h _ _ hjson] at hnone
  cases hnone

end Path
end JsonPath
