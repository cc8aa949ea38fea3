import JsonPath.Proofs.Acceptance

/-! A text is read as a path exactly when the grammar of paths derives it, and with the syntax tree
that it is derived with. -/
namespace JsonPath

open Reader

namespace Path

theorem isBlank_of_isIdentifierRest {c : Char} (h : isIdentifierRest c = true) :
    Text.isBlank c = false := by
  simp only [isIdentifierRest, Char.isAlphanum, Char.isAlpha, Char.isUpper, Char.isLower,
    Bool.or_eq_true, beq_iff_eq, Bool.and_eq_true, decide_eq_true_eq] at h
  rcases h with ((hletter | hdigit) | rfl) | rfl
  · have hrange : 65 ≤ c.toNat ∧ c.toNat ≤ 90 ∨ 97 ≤ c.toNat ∧ c.toNat ≤ 122 := hletter
    exact Text.isBlank_eq_false (by omega) (by omega)
  · exact isBlank_of_isDigit hdigit
  · decide
  · decide

theorem readIdentifier_nameText {t rest : List Char} {name : String} (h : NameText t name)
    (hrest : ∀ c ∈ rest.head?, isIdentifierRest c = false) :
    readIdentifier (t ++ rest) = some (name, rest) := by
  cases h with
  | @intro c cs hc hcs =>
    simp only [readIdentifier, List.cons_append, bind_apply, satisfy, hc, if_true,
      Option.bind_some, many_apply, List.takeWhile_append_of_pos hcs,
      List.dropWhile_append_of_pos hcs, takeWhile_eq_nil hrest, dropWhile_eq_self hrest,
      List.append_nil, pure_apply]

theorem readBracketed_bracketText {t : List Char} {s : Segment}
    (h : Padded Text.isBlank BracketText t s) (rest : List Char) :
    readBracketed ('[' :: (t ++ ']' :: rest)) = some (s, rest) := by
  have haccepts : (Segment.property <$> readString <|> Segment.index <$> readIndex).Accepts [']']
      BracketText := by
    intro t s rest h hrest
    cases h with
    | property h =>
      obtain ⟨u, hread, hu⟩ := readString_accepts _ _ _ _ h hrest
      exact ⟨u, by rw [orElse_apply, map_apply, hread, Option.map_some, Option.some_or], hu⟩
    | index h =>
      refine ⟨rest, ?_, rfl⟩
      obtain ⟨c, cs, hcons, hc⟩ := h.eq_cons
      have hdigit := hrest.head_eq_false (fun _ => isBlank_of_isDigit) (by simp)
      have hread := readIndex_indexText h hdigit
      have hstring := readString_of_ne (hc.ne (by decide)) (hc.ne (by decide)) (cs ++ rest)
      rw [hcons, List.cons_append] at hread ⊢
      simp only [trim_cons hc.isBlank, orElse_apply, map_apply, hstring, hread, Option.map_none,
        Option.map_some, Option.none_or]
  have hclosing : trim (']' :: rest) = ']' :: rest := trim_cons (by decide) rest
  have hread := haccepts.spaced t s (']' :: rest) h (by simp [Before, hclosing])
  rw [spaced_trim, hclosing] at hread
  simp only [readBracketed, seqLeft_apply, seqRight_apply, char_self, Option.bind_some, hread,
    Option.map_some]

/-- What can stand behind a segment: nothing that makes a name longer or a property a call. -/
def AfterSegment (s : List Char) : Prop :=
  (∀ c ∈ s.head?, isIdentifierRest c = false) ∧ ∀ c ∈ (trim s).head?, c ≠ '('

theorem Before.afterSegment {cs s : List Char} (h : Before cs s)
    (hcs : ∀ c ∈ cs, isIdentifierRest c = false ∧ c ≠ '(') : AfterSegment s :=
  ⟨h.head_eq_false (fun _ => isBlank_of_isIdentifierRest) fun c hc => (hcs c hc).1,
    fun c hc => (hcs c (h c hc)).2⟩

section Arguments
variable {argument : Reader Argument} {G : Phrase Argument}

theorem readArguments_of_trim {s : List Char} (h : ∀ c ∈ (trim s).head?, c ≠ '(') :
    readArguments argument s = none := by
  simp only [readArguments, seqLeft_apply, seqRight_apply, spaced_apply, char_of_head h,
    Option.map_none, Option.bind_none]

/-- What can stand behind an argument. -/
def argumentClosers : List Char := [',', ')']

theorem readArguments_reads (hargument : argument.Accepts argumentClosers G)
    (hstop : ∀ s, argument (')' :: s) = none) {u t : List Char} {as : List Argument}
    (hu : Mark '(' u) (ht : Listed (Padded Text.isBlank G) t as) (rest : List Char) :
    readArguments argument (u ++ (t ++ ')' :: rest)) = some (as, rest) := by
  have hclosing : trim (')' :: rest) = ')' :: rest := trim_cons (by decide) rest
  have hitem (s : List Char) : spaced argument (')' :: s) = none := by
    rw [spaced_apply, trim_cons (by decide), hstop, Option.map_none]
  have hread := sepBy_reads hargument.spaced (by decide) (by decide) (by decide) (by decide) hitem
    ht (Mark.bare ')') rest
  rw [List.singleton_append, hclosing] at hread
  rw [readArguments, seqLeft_apply, seqRight_apply, ← spaced_trim, mark_reads (by decide) hu,
    Option.bind_some, hread, Option.bind_some, char_self, Option.map_some]

variable {n : Nat}

theorem readSegment_segmentText
    (hargument : argument.Accepts argumentClosers fun t a => t.length < n ∧ ArgumentText t a)
    (hstop : ∀ s, argument (')' :: s) = none) {t : List Char} {s : Segment}
    (h : SegmentText t s) (hlength : t.length ≤ n) {rest : List Char} (hrest : AfterSegment rest) :
    readSegment argument (t ++ rest) = some (s, rest) := by
  cases h with
  | @property t name h =>
    simp only [readSegment, readDotted, List.cons_append, orElse_apply, bind_apply, char_self,
      Option.bind_some, readIdentifier_nameText h hrest.1, optional_apply,
      readArguments_of_trim hrest.2, Option.map_none, Option.none_or, pure_apply, Option.some_or]
  | @call m u t name as hn hu h =>
    simp only [List.length_cons, List.length_append, List.length_nil] at hlength
    have h' : Listed (Padded Text.isBlank fun t a => t.length < n ∧ ArgumentText t a) t as :=
      h.imp fun v a hv ha => ha.imp fun w b hw hb => ⟨by omega, hb⟩
    -- The name ends where the parenthesis or a blank before it stands.
    have hopening : Before ['('] (u ++ (t ++ ')' :: rest)) :=
      before_mark (by decide) (by simp) hu _
    have hname := readIdentifier_nameText hn
      (hopening.head_eq_false (fun _ => isBlank_of_isIdentifierRest) (by simp [isIdentifierRest]))
    have htext : '.' :: (m ++ (u ++ (t ++ [')']))) ++ rest =
        '.' :: (m ++ (u ++ (t ++ ')' :: rest))) := by simp
    simp only [htext, readSegment, readDotted, orElse_apply, bind_apply, char_self,
      Option.bind_some, hname, optional_apply, readArguments_reads hargument hstop hu h' rest,
      Option.map_some, Option.some_or, pure_apply]
  | @bracket t s h =>
    have htext : '[' :: (t ++ [']']) ++ rest = '[' :: (t ++ ']' :: rest) := by simp
    rw [htext, readSegment_of_bracket, readBracketed_bracketText h]

theorem SegmentText.eq_cons {t : List Char} {s : Segment} (h : SegmentText t s) :
    ∃ c cs, t = c :: cs ∧ (c = '.' ∨ c = '[') := by
  cases h with
  | property => exact ⟨_, _, rfl, .inl rfl⟩
  | call => exact ⟨_, _, rfl, .inl rfl⟩
  | bracket => exact ⟨_, _, rfl, .inr rfl⟩

theorem readSegment_of_before {s : List Char} (h : Before argumentClosers s) :
    readSegment argument s = none := by
  have hdot : char '.' s = none := char_of_head (h.head_ne (by decide) (by decide))
  have hbracket : char '[' s = none := char_of_head (h.head_ne (by decide) (by decide))
  simp only [readSegment, readDotted, readBracketed, orElse_apply, bind_apply, seqLeft_apply,
    seqRight_apply, hdot, hbracket, Option.bind_none, Option.none_or]

/-- By induction on the segments: a segment is followed by the next one or by what follows the
path, and both end it. -/
theorem repeated_segments
    (hargument : argument.Accepts argumentClosers fun t a => t.length < n ∧ ArgumentText t a)
    (hstop : ∀ s, argument (')' :: s) = none) {t : List Char} {ss : List Segment}
    (h : Many SegmentText t ss) (hlength : t.length ≤ n) {rest : List Char}
    (hrest : Before argumentClosers rest) :
    AfterSegment (t ++ rest) ∧ ∀ m, ss.length ≤ m →
      repeatUpTo (readSegment argument) m (t ++ rest) = (ss, rest) := by
  induction h with
  | nil =>
    exact ⟨hrest.afterSegment (by simp [argumentClosers, isIdentifierRest]),
      fun m _ => repeatUpTo_of_none (readSegment_of_before hrest) m⟩
  | @cons t ts s ss h hs ih =>
    rw [List.length_append] at hlength
    obtain ⟨hafter, hmore⟩ := ih (by omega)
    have hread := readSegment_segmentText hargument hstop h (by omega) hafter
    rw [List.append_assoc]
    constructor
    · obtain ⟨c, cs, rfl, hc⟩ := h.eq_cons
      have hblank : Text.isBlank c = false := by rcases hc with rfl | rfl <;> decide
      rw [List.cons_append, AfterSegment, trim_cons hblank]
      rcases hc with rfl | rfl <;> simp [isIdentifierRest]
    · intro m hm
      obtain ⟨m, rfl⟩ : ∃ k, m = k + 1 := ⟨m - 1, by simp at hm; omega⟩
      rw [repeatUpTo, hread]
      simp only [hmore m (by simpa using hm)]

end Arguments

theorem PathText.eq_cons {t : List Char} {p : Path} (h : PathText t p) :
    ∃ (root : Root) (cs : List Char), t = root.symbol :: cs := by
  cases h with
  | intro => exact ⟨_, _, rfl⟩

theorem readLiteral_of_root (bound : Nat) (root : Root) (s : List Char) :
    readLiteral bound (root.symbol :: s) = none := by
  cases bound with
  | zero => rfl
  | succ bound => cases root <;> rfl

/-- No text is both a literal and a path. -/
theorem read_of_readLiteral {literals bound : Nat} {s : List Char}
    (h : (readLiteral literals s).isSome) : read literals bound s = none := by
  cases s with
  | nil => cases bound <;> rfl
  | cons c s =>
    have hne (root : Root) : c ≠ root.symbol := by
      rintro rfl
      rw [readLiteral_of_root] at h
      cases h
    exact read_of_not_root literals bound ⟨hne .document, hne .current⟩ s

theorem readArgument_of_closing (literals bound : Nat) (s : List Char) :
    readArgument literals bound (')' :: s) = none := by
  have hliteral : readLiteral literals (')' :: s) = none := by cases literals <;> rfl
  rw [readArgument, orElse_apply, map_apply, map_apply, hliteral,
    read_of_not_root literals bound (by decide), Option.map_none, Option.map_none,
    Option.none_or]

theorem readArgument_accepts {literals bound : Nat}
    (hread : ∀ {t : List Char} {p : Path}, PathText t p → t.length ≤ literals →
      t.length < bound → ∀ {rest : List Char}, Before argumentClosers rest →
        read literals bound (t ++ rest) = some (p, rest)) :
    (readArgument literals bound).Accepts argumentClosers fun t a =>
      t.length < min literals bound ∧ ArgumentText t a := by
  rintro t a rest ⟨hlength, h⟩ hrest
  cases h with
  | @path t p h =>
    have hpath := hread h (by omega) (by omega) hrest
    obtain ⟨root, cs, rfl⟩ := h.eq_cons
    rw [List.cons_append] at hpath ⊢
    rw [trim_cons (isBlank_symbol root)]
    refine ⟨rest, ?_, rfl⟩
    rw [readArgument, orElse_apply, map_apply, hpath, Option.map_some, Option.some_or]
  | @literal t v h =>
    have hliteral := readLiteral_reads literals t v rest ⟨by omega, h⟩ (hrest.mono (by decide))
    -- The path is tried first, so it must be known to fail.
    have hpath : read literals bound (trim (t ++ rest)) = none :=
      read_of_readLiteral (by rw [hliteral]; rfl)
    refine ⟨trim rest, ?_, trim_trim rest⟩
    rw [readArgument, orElse_apply, map_apply, map_apply, hpath, hliteral, Option.map_none,
      Option.none_or, Option.map_some]

/-- By induction on the bound: the arguments of a call are shorter than the path. -/
theorem read_pathText {literals bound : Nat} {t : List Char} {p : Path} (h : PathText t p)
    (hliterals : t.length ≤ literals) (hbound : t.length < bound) {rest : List Char}
    (hrest : Before argumentClosers rest) : read literals bound (t ++ rest) = some (p, rest) := by
  induction bound generalizing t p rest with
  | zero => omega
  | succ bound ih =>
    cases h with | @intro root t ss h => ?_
    rw [List.length_cons] at hliterals hbound
    obtain ⟨_, hsegments⟩ := repeated_segments (readArgument_accepts ih)
      (readArgument_of_closing literals bound) h (by omega) hrest
    have hcount : ss.length ≤ (t ++ rest).length := by
      have := h.length_le fun u s hs => by
        obtain ⟨c, cs, rfl, _⟩ := hs.eq_cons
        exact Nat.succ_pos _
      rw [List.length_append]
      omega
    rw [List.cons_append, read_succ]
    simp only [seq_apply, map_apply, readRoot_symbol, Option.map_some, Option.bind_some, repeated,
      hsegments _ hcount]

theorem parse?_of_derives {text : String} {p : Path} (h : Derives text p) :
    parse? text = some p := by
  unfold Derives at h
  generalize hs : text.toList = s at h
  obtain @⟨w, t, w', _, hw, h, hw'⟩ := h
  have htrim : trim w' = [] := by
    rw [← List.append_nil w', trim_append hw']
    rfl
  have hroot : trim (t ++ w') = t ++ w' := by
    obtain ⟨root, cs, rfl⟩ := h.eq_cons
    rw [List.cons_append, trim_cons (isBlank_symbol root)]
  have hread : read ((w ++ (t ++ w')).length + 1) ((w ++ (t ++ w')).length + 1) (t ++ w') =
      some (p, w') := by
    refine read_pathText h ?_ ?_ (by simp [Before, htrim])
    · simp only [List.length_append]
      omega
    · simp only [List.length_append]
      omega
  simp only [parse?, hs, all?, spaced_apply, trim_append hw, hroot, hread, Option.map_some, htrim]

/-- A literal is what a call of one argument can be made on. -/
theorem derives_call (root : Root) {n t : List Char} {name : String} {v : Json}
    (hn : NameText n name) (h : LiteralText t v) :
    Derives (.ofList (root.symbol :: '.' :: (n ++ '(' :: (t ++ [')']))))
      ⟨root, [.call name [.literal v]]⟩ := by
  have harguments : Listed (Padded Text.isBlank ArgumentText) t [.literal v] :=
    .some (.one (.bare (.literal h)))
  have hsegment := Many.one (SegmentText.call hn (Mark.bare '(') harguments)
  rw [Derives, String.toList_ofList]
  exact .bare (.intro hsegment)

/-- Paths are read by their grammar, which gives each text one syntax tree at most. -/
theorem parse?_eq_some_iff_derives (text : String) :
    (∀ p, parse? text = some p ↔ Derives text p) ∧
      ∀ p q, Derives text p → Derives text q → p = q := by
  constructor
  · intro p
    exact ⟨fun h => (derives_of_parse? kept_true trivial h).2, parse?_of_derives⟩
  · intro p q hp hq
    rw [← Option.some.injEq, ← parse?_of_derives hp, ← parse?_of_derives hq]

/-- Blanks may stand before the parenthesis of a call and around its arguments, and a comma behind
the last element or member of a literal. Of two members of a name the last one counts. -/
theorem parse?_eq_some_iff_derives_blanks :
    let text := "$['a'].f (\t[true, -12,] , \x7b'k' : null, \"k\":0,\x7d , @.b )"
    let p : Path := ⟨.document, [.property "a", .call "f"
      [.literal (.array [.bool true, .ofInt (-12)]), .literal (.object [("k", .ofInt 0)]),
        .path ⟨.current, [.property "b"]⟩]]⟩
    Derives text p ∧ ∀ q, Derives text q → p = q := by
  intro text p
  obtain ⟨hparse, hunique⟩ := parse?_eq_some_iff_derives text
  have hp : Derives text p := (hparse p).mp (by cbv)
  exact ⟨hp, fun q hq => hunique p q hp hq⟩

end Path
end JsonPath
