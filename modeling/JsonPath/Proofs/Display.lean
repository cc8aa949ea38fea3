import JsonPath.Proofs.Readable

/-! The text of a path says what the path is as long as no arguments are elided in it: then it reads
back as the path, and else it is no path. -/
namespace JsonPath

open Reader

/-- A segment that calls nothing or calls without arguments. -/
def Segment.isBare : Segment → Bool
  | .call _ as => as.isEmpty
  | _ => true

namespace Path

/-- No call of the path itself has arguments. -/
def isBare (p : Path) : Bool := p.segments.all Segment.isBare

/-- Neither a closing parenthesis nor a dot begins an argument. -/
theorem spaced_readArgument (literals bound : Nat) {c : Char} (hc : c = ')' ∨ c = '.')
    (s : List Char) : spaced (readArgument literals bound) (c :: s) = none := by
  rcases hc with rfl | rfl <;> cases literals <;> cases bound <;> rfl

theorem readArguments_of_not_argument {argument : Reader Argument} {c : Char}
    (hc : Text.isBlank c = false) {s : List Char} (h : spaced argument (c :: s) = none) :
    readArguments argument ('(' :: c :: s) = (char ')' (c :: s)).map fun q => ([], q.2) := by
  rw [readArguments_of_not_blank argument hc]
  simp only [seqLeft_apply, sepBy, sepBy1, orElse_apply, bind_apply, h, Option.bind_none,
    Option.none_or, pure_apply, Option.bind_some]

variable (literals bound : Nat)

theorem readArguments_empty (rest : List Char) :
    readArguments (readArgument literals bound) ('(' :: ')' :: rest) = some ([], rest) :=
  readArguments_of_not_argument (by decide) (spaced_readArgument literals bound (.inl rfl) rest)

theorem readArguments_elided (rest : List Char) :
    readArguments (readArgument literals bound) ('(' :: '.' :: rest) = none :=
  readArguments_of_not_argument (by decide) (spaced_readArgument literals bound (.inr rfl) rest)

theorem readSegment_bare {s : Segment} (hs : s.isBare = true) (hname : s.Named)
    (rest : List Char) :
    readSegment (readArgument literals bound) ((Token.ofSegment s).text.toList ++ rest) =
      some (s, rest) := by
  cases s with
  | call name as =>
    obtain rfl : as = [] := List.isEmpty_iff.mp hs
    have htext : (Token.ofSegment (.call name [])).text.toList ++ rest =
        '.' :: (name.toList ++ '(' :: ')' :: rest) := by
      simp [Token.ofSegment, Token.ofCall, Parameter.ofArguments, Token.text]
    rw [htext, readSegment_of_name _ hname.1, readArguments_empty literals bound]
  | property name => exact readSegment_text _ rfl rest
  | index i => exact readSegment_text _ rfl rest

/-- What is left of a call with arguments is its name, taken for a property, and the parentheses,
which begin no segment. -/
theorem readSegment_elided {name : String} (hname : Identifier name) {as : List Argument}
    (has : as ≠ []) (rest : List Char) :
    readSegment (readArgument literals bound)
        ((Token.ofSegment (.call name as)).text.toList ++ rest) =
      some (.property name, "(...)".toList ++ rest) := by
  have htext : (Token.ofSegment (.call name as)).text.toList ++ rest =
      '.' :: (name.toList ++ '(' :: ('.' :: '.' :: '.' :: ')' :: rest)) := by
    obtain ⟨a, as, rfl⟩ := List.exists_cons_of_ne_nil has
    simp [Token.ofSegment, Token.ofCall, Parameter.ofArguments, Token.text]
  rw [htext, readSegment_of_name _ hname, readArguments_elided literals bound]
  rfl

theorem readSegment_parenthesis (argument : Reader Argument) (s : List Char) :
    readSegment argument ('(' :: s) = none := rfl

/-- Reading stops behind the name of the first call whose arguments are elided. -/
theorem read_elided {before : List Segment} (hbefore : ∀ s ∈ before, s.isBare = true ∧ s.Named)
    {name : String} (hname : Identifier name) {as : List Argument} (has : as ≠ []) (root : Root)
    (rest : List Char) :
    read literals (bound + 1)
        (root.symbol :: ((before.flatMap fun s => (Token.ofSegment s).text.toList) ++
          ((Token.ofSegment (.call name as)).text.toList ++ rest))) =
      some (⟨root, before ++ [.property name]⟩, "(...)".toList ++ rest) := by
  have helided := readSegment_elided literals bound hname has rest
  obtain ⟨n, hn, hread⟩ := read_segments
    (fun s hs rest => readSegment_bare literals bound (hbefore s hs).1 (hbefore s hs).2 rest) root
    ((Token.ofSegment (.call name as)).text.toList ++ rest)
  have hpos : (Token.ofSegment (.call name as)).text.toList ≠ [] := by
    simp [Token.ofSegment, Token.ofCall, Token.text]
  obtain ⟨m, rfl⟩ : ∃ m, n = m + 1 := by
    have := List.length_pos_iff.mpr hpos
    rw [List.length_append] at hn
    exact ⟨n - 1, by omega⟩
  have hstop : repeatUpTo (readSegment (readArgument literals bound)) m ("(...)".toList ++ rest) =
      ([], "(...)".toList ++ rest) := repeatUpTo_of_none (readSegment_parenthesis _ _) m
  -- One more segment is read, the name, and then none.
  rw [hread, repeatUpTo, helided]
  simp only [hstop]

theorem parse?_text_of_bare {p : Path} (hp : p.isBare = true) (hname : ∀ s ∈ p.segments, s.Named) :
    parse? (Plan.ofPath p).text = some p := by
  obtain ⟨root, ss⟩ := p
  have hbare : ∀ s ∈ ss, s.isBare = true := List.all_eq_true.mp hp
  exact parse?_of_segments (toList_text_ofPath _) fun s hs =>
    readSegment_bare _ _ (hbare s hs) (hname s hs)

theorem parse?_text_of_elided {p : Path} (hp : p.isBare = false)
    (hname : ∀ s ∈ p.segments, s.Named) : parse? (Plan.ofPath p).text = none := by
  obtain ⟨root, ss⟩ := p
  -- The first call with arguments: all segments before it read back.
  obtain ⟨s, hs⟩ : ∃ s, ss.find? (fun s => !s.isBare) = some s := by
    rw [← Option.isSome_iff_exists, List.find?_isSome]
    simpa [isBare] using hp
  obtain ⟨hcall, before, after, rfl, hbefore⟩ := List.find?_eq_some_iff_append.mp hs
  cases s with
  | call name as =>
    have has : as ≠ [] := by simpa [Segment.isBare] using hcall
    have hidentifier : Identifier name := (hname (.call name as) (by simp)).1
    have hbefore' : ∀ s ∈ before, s.isBare = true ∧ s.Named := fun s hs =>
      ⟨by simpa using hbefore s hs, hname s (List.mem_append_left _ hs)⟩
    have htext := toList_text_ofPath ⟨root, before ++ .call name as :: after⟩
    rw [List.flatMap_append, List.flatMap_cons] at htext
    rw [parse?_of_read htext (read_elided _ _ hbefore' hidentifier has root _)
      (by intro c hc; cases hc; rfl)]
    rfl
  | _ => cases hcall

end Path

namespace Plan

/-- The text of a path reads back as that path if no call in it has arguments, and compiles to nothing
if one has. So a path without arguments is told from all others by its text. -/
theorem text_reads_back {text : String} {p : Path} (h : Path.parse? text = some p) :
    Path.parse? (ofPath p).text = (if p.isBare then some p else none) ∧
    compile (ofPath p).text =
      (if p.isBare then .ok (ofPath p) else .error (.malformedPath (ofPath p).text)) ∧
    (p.isBare = true → ∀ (text' : String) (q : Path), Path.parse? text' = some q →
      (ofPath q).text = (ofPath p).text → q = p) := by
  have hread {text : String} {p : Path} (h : Path.parse? text = some p) :
      Path.parse? (ofPath p).text = if p.isBare then some p else none := by
    have hname := Path.named_of_parse? h
    cases hp : p.isBare with
    | true => exact Path.parse?_text_of_bare hp hname
    | false => exact Path.parse?_text_of_elided hp hname
  refine ⟨hread h, ?_, ?_⟩
  · rw [compile, hread h]
    cases p.isBare <;> rfl
  · intro hp text' q hq htext
    have hsame := hread hq
    rw [htext, hread h, if_pos hp] at hsame
    cases hbare : q.isBare with
    | true => simpa [hbare] using hsame.symm
    | false => simp [hbare] at hsame

/-- The name `it's` keeps its quote; of `@.a.join('-').b` the text is no path. -/
theorem text_reads_back_quoted :
    let p : Path := ⟨.document, [.property "it's", .index (-1), .call "size" []]⟩
    let q : Path := ⟨.current, [.property "a", .call "join" [.literal (.string "-")], .property "b"]⟩
    Path.parse? "$['it\\'s'][-01].size( )" = some p ∧
      Path.parse? "$['it\\'s'][-1].size()" = some p ∧
      Path.parse? "@.a.join('-').b" = some q ∧
      compile "@['a'].join(...)['b']" = .error (.malformedPath "@['a'].join(...)['b']") := by
  intro p q
  have hp : Path.parse? "$['it\\'s'][-01].size( )" = some p := by cbv
  have hq : Path.parse? "@.a.join('-').b" = some q := by cbv
  exact ⟨hp, (text_reads_back hp).1, hq, (text_reads_back hq).2.1⟩

end Plan
end JsonPath
