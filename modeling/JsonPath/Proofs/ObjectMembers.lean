import JsonPath.Proofs.Arguments
import JsonPath.Proofs.ByteOrder
import JsonPath.Proofs.Composition
import JsonPath.Proofs.FunctionPath
import JsonPath.Proofs.JsonGrammar
import JsonPath.Proofs.Options
import JsonPath.Proofs.Recognition

/-! What can be read of an object in a document: its names, their number and the value of each. All
three follow from the entries that the text of the document has for the object. -/
namespace JsonPath

namespace Path

theorem stringText_escapeProperty (name : String) :
    StringText ('\'' :: (name.toList.flatMap escapeProperty ++ ['\''])) name := by
  have hchars (cs : List Char) : Many (CharText '\'') (cs.flatMap escapeProperty) cs := by
    induction cs with
    | nil => exact .nil
    | cons c cs ih =>
      refine .cons ?_ ih
      unfold escapeProperty
      split
      next hc =>
        apply CharText.escape
        apply EscapeText.short
        rcases hc with rfl | rfl <;> decide
      next hc =>
        rw [not_or] at hc
        exact .raw hc.2 hc.1
  have h := StringText.intro (.inl rfl) (hchars name.toList)
  rwa [String.ofList_toList] at h

theorem segmentText_propertyText (name : String) :
    SegmentText (propertyText name).toList (.property name) := by
  rw [toList_propertyText]
  have h := SegmentText.bracket (.bare (.property (stringText_escapeProperty name)))
  simpa using h

theorem segmentText_bareCall {n : List Char} {name : String} (hn : NameText n name) :
    SegmentText ('.' :: (n ++ ['(', ')'])) (.call name []) := .call hn (.bare '(') .none

theorem segmentText_keys : SegmentText ".keys()".toList (.call "keys" []) := by
  have hname : NameText ['k', 'e', 'y', 's'] "keys" :=
    .intro (by decide) (List.all_eq_true.mp (by decide))
  exact segmentText_bareCall hname

theorem segmentText_length : SegmentText ".length()".toList (.call "length" []) := by
  have hname : NameText ['l', 'e', 'n', 'g', 't', 'h'] "length" :=
    .intro (by decide) (List.all_eq_true.mp (by decide))
  exact segmentText_bareCall hname

/-- Segments can be written behind a path, if no blank stands between. -/
theorem parse?_append {t u : String} {root : Root} {ss ss' : List Segment}
    (h : parse? t = some ⟨root, ss⟩) (hend : ∀ c ∈ t.toList.getLast?, Text.isBlank c = false)
    (hu : Many SegmentText u.toList ss') : parse? (t ++ u) = some ⟨root, ss ++ ss'⟩ := by
  apply parse?_of_derives
  have hderives : Derives t ⟨root, ss⟩ := (derives_of_parse? kept_true trivial h).2
  unfold Derives at hderives ⊢
  rw [String.toList_append]
  generalize t.toList = s at hderives hend
  obtain @⟨w, _, w', _, hw, hpath, hw'⟩ := hderives
  obtain @⟨_, v, _, hss⟩ := hpath
  -- Blanks may stand behind a path, but not between it and a segment.
  obtain rfl : w' = [] := by
    rw [← List.append_assoc] at hend
    exact hw'.eq_nil hend
  have hpath : PathText (root.symbol :: (v ++ u.toList)) ⟨root, ss ++ ss'⟩ := .intro (hss.append hu)
  simpa using Padded.intro hw hpath blanks_nil

end Path

/-- A path text of names and positions that can be written on: no blank stands at its end. -/
structure Path.PlainText (t : String) (p : Path) : Prop where
  parse : parse? t = some p
  plain : ∀ s ∈ p.segments, s.isCall = false
  last : ∀ c ∈ t.toList.getLast?, Text.isBlank c = false

/-- The text of a path itself is one of these. -/
theorem Path.plainText_text (p : Path) (hp : ∀ s ∈ p.segments, s.isCall = false) :
    p.PlainText (Plan.ofPath p).text := by
  refine ⟨parse?_text p hp, hp, ?_⟩
  rw [toList_text_ofPath]
  obtain ⟨root, ss⟩ := p
  rcases List.eq_nil_or_concat ss with rfl | ⟨before, s, rfl⟩
  · intro c hc
    cases hc
    exact isBlank_symbol root
  · have hs : (Token.ofSegment s).text.toList.getLast? = some ']' := by
      rw [Token.getLast?_text_ofSegment, hp s (by simp)]
      rfl
    intro c hc
    simp [List.getLast?_cons, List.getLast?_append, hs] at hc
    subst hc
    decide

theorem read_of_parse? {t : String} {p : Path} (h : Path.parse? t = some p) (d : Json) :
    read t d = (Plan.ofPath p).value d d .standard := by
  have hcompile : Plan.compile t = .ok (.ofPath p) := Plan.compile_eq_ok_iff.mpr ⟨p, h, rfl⟩
  unfold read
  rw [hcompile]
  exact Plan.read_eq_value _ d .standard

namespace Token

variable {r : Resolver} {e : Environment} {a : Cursor} {ms : List (String × Json)}

theorem step_bareCall {name : String} {f : Function}
    (hname : e.configuration.registry.lookup name = .ok f) :
    (ofSegment (.call name [])).step r e a =
      (f.invoke a.path a.value []).map fun v => { a with value := v } := by
  rw [step_call, hname]
  rfl

theorem step_keysCall (he : e.configuration.registry = .standard) :
    (ofSegment (.call "keys" [])).step r e a =
      .ok { a with value := Collection.keys a.value } := by
  have hname : e.configuration.registry.lookup "keys" = .ok .keys := by
    rw [he]
    cbv
  rw [step_bareCall hname]
  rfl

theorem step_lengthCall (he : e.configuration.registry = .standard) :
    (ofSegment (.call "length" [])).step r e a =
      .ok { a with value := Length.invoke a.value } := by
  have hname : e.configuration.registry.lookup "length" = .ok .length := by
    rw [he]
    cbv
  rw [step_bareCall hname]
  rfl

theorem step_property_of_some (ha : a.value = .object ms) {name : String} {v : Json}
    (hv : Dictionary.lookup? name ms = some v) : (ofSegment (.property name)).step r e a =
      .ok ⟨a.path ++ Path.propertyText name, .property name, v⟩ := by
  simp only [ofSegment, step, ha, hv]

theorem step_property_of_none (ha : a.value = .object ms) {name : String}
    (hv : Dictionary.lookup? name ms = none) :
    (ofSegment (.property name)).step r e a = .error (.noMember name a.path) := by
  simp only [ofSegment, step, ha, hv]

end Token

namespace Path.PlainText

variable {t : String} {p : Path} {d : Json} {a : Cursor} (h : p.PlainText t)
  (ha : (Plan.ofPath p).reach d d .standard = .ok a)
include h ha

/-- What the segments behind a path give is read off the place that the path reaches. -/
theorem read_append {u : String} {ss : List Segment} (hu : Many SegmentText u.toList ss) :
    JsonPath.read (t ++ u) d =
      (Token.reach Closure.value ⟨.standard, d⟩ a (Token.ofSegments ss)).map (·.value) := by
  obtain ⟨root, before⟩ := p
  rw [read_of_parse? (parse?_append h.parse h.last hu), Plan.value_eq, Plan.reach_ofPath_append, ha]
  rfl

theorem read_keys : JsonPath.read (t ++ ".keys()") d = .ok (Collection.keys a.value) := by
  rw [h.read_append ha (.one segmentText_keys), Token.ofSegments, Token.reach_cons,
    Token.step_keysCall rfl]
  rfl

theorem read_length : JsonPath.read (t ++ ".length()") d = .ok (Length.invoke a.value) := by
  rw [h.read_append ha (.one segmentText_length), Token.ofSegments, Token.reach_cons,
    Token.step_lengthCall rfl]
  rfl

theorem read_keys_length :
    JsonPath.read (t ++ ".keys().length()") d = .ok (Length.invoke (Collection.keys a.value)) := by
  have htext : ".keys().length()".toList = ".keys()".toList ++ ".length()".toList := rfl
  have hsegments : Many SegmentText ".keys().length()".toList
      [.call "keys" [], .call "length" []] := by
    rw [htext]
    exact .cons segmentText_keys (.one segmentText_length)
  rw [h.read_append ha hsegments, Token.ofSegments, Token.reach_cons, Token.step_keysCall rfl,
    Except.bind, Token.ofSegments, Token.reach_cons, Token.step_lengthCall rfl]
  rfl

theorem read_property_of_some {ms : List (String × Json)} (hms : a.value = .object ms) {k : String}
    {v : Json} (hv : Dictionary.lookup? k ms = some v) :
    JsonPath.read (t ++ propertyText k) d = .ok v := by
  rw [h.read_append ha (.one (segmentText_propertyText k)), Token.ofSegments, Token.reach_cons,
    Token.step_property_of_some hms hv]
  rfl

theorem read_property_of_none {ms : List (String × Json)} (hms : a.value = .object ms) {k : String}
    (hv : Dictionary.lookup? k ms = none) :
    JsonPath.read (t ++ propertyText k) d = .error (.noMember k a.path) := by
  rw [h.read_append ha (.one (segmentText_propertyText k)), Token.ofSegments, Token.reach_cons,
    Token.step_property_of_none hms hv]
  rfl

end Path.PlainText

/-- For every object that a path of names and positions finds in a parsed document, the names that
`keys` gives are those of the entries that the text has for it, each once and in the order of their
UTF-8 bytes. `length` gives their number, and behind the path the bracket form of a name finds the
value of the last entry with this name, and nothing where there is no such entry. The text can be
derived as one that writes the document; what is said of its entries holds in all derivations. -/
theorem object_reads_agree {text : String} {d : Json} (h : Json.parse? text = some d) :
    (∃ w, Json.Writes text w) ∧
    ∀ w, Json.Writes text w → w.value = d ∧
      ∀ (t : String) (p : Path) (ms : List (String × Json)), p.PlainText t →
        read t d = .ok (.object ms) →
        ∃ (l : Location) (es : List (String × Json.Written)) (ks : List String),
          Visits d p.segments l (.object ms) ∧ w.at? l = some (.object es) ∧
          read (t ++ ".keys()") d = .ok (.array (ks.map .string)) ∧
          (ks.Pairwise fun a b => Text.bytes a < Text.bytes b) ∧
          (∀ k, k ∈ ks ↔ ∃ u, (k, u) ∈ es) ∧
          read (t ++ ".length()") d = .ok (.ofInt ks.length) ∧
          read (t ++ ".keys().length()") d = .ok (.ofInt ks.length) ∧
          ∀ k, ((∃ v, read (t ++ Path.propertyText k) d = .ok v) ↔ k ∈ ks) ∧
            (∀ before u after, es = before ++ (k, u) :: after → (∀ v, (k, v) ∉ after) →
              read (t ++ Path.propertyText k) d = .ok u.value) ∧
            (k ∉ ks → ∃ err, read (t ++ Path.propertyText k) d = .error err ∧
              err.kind = .pathNotFound) := by
  have hwritten (w : Json.Written) (hw : Json.Writes text w) : w.value = d :=
    Option.some.inj ((Json.parse?_eq_some_iff_writes.mpr ⟨w, hw, rfl⟩).symm.trans h)
  constructor
  · obtain ⟨w, hw, _⟩ := Json.parse?_eq_some_iff_writes.mp h
    exact ⟨w, hw⟩
  · intro w hw
    refine ⟨hwritten w hw, ?_⟩
    intro t p ms ht hread
    have hvalue := (read_of_parse? ht.parse d).symm.trans hread
    obtain ⟨a, hreach, ha⟩ := Plan.exists_place_of_value hvalue
    obtain ⟨l, u, hl, hplace⟩ := (Plan.reach_plain_iff ht.plain).mp hreach
    have hu : u = .object ms := by
      rw [hplace] at ha
      exact ha
    subst hu
    obtain ⟨es, hes, rfl⟩ := Json.Written.exists_entries ((hwritten w hw).symm ▸ hl.at?)
    refine ⟨l, es, Dictionary.keys (Dictionary.ofList (Json.Written.members es)), hl, hes, ?_, ?_,
      fun k => Json.Written.mem_keys_iff, ?_, ?_, ?_⟩
    · rw [ht.read_keys hreach, ha, Collection.keys]
    · rw [Dictionary.keys, List.pairwise_map]
      exact (Dictionary.sorted_ofList _).imp Text.bytes_lt
    · rw [ht.read_length hreach, ha]
      simp only [Length.invoke, Json.length?, Dictionary.keys, List.length_map]
    · rw [ht.read_keys_length hreach, ha]
      simp only [Length.invoke, Collection.keys, Json.length?, List.length_map]
    · intro k
      have habsent (hk : k ∉ Dictionary.keys (Dictionary.ofList (Json.Written.members es))) :
          read (t ++ Path.propertyText k) d = .error (.noMember k a.path) := by
        apply ht.read_property_of_none hreach ha
        rw [Option.eq_none_iff_forall_ne_some]
        intro v hv
        exact hk (Dictionary.mem_keys_iff.mpr ⟨v, hv⟩)
      refine ⟨?_, ?_, ?_⟩
      · constructor
        · intro hv
          obtain ⟨v, hv⟩ := hv
          by_contra hk
          rw [habsent hk] at hv
          cases hv
        · intro hk
          obtain ⟨v, hv⟩ := Dictionary.mem_keys_iff.mp hk
          exact ⟨v, ht.read_property_of_some hreach ha hv⟩
      · intro before u after hsplit hafter
        exact ht.read_property_of_some hreach ha (Json.Written.lookup?_of_last hsplit hafter)
      · intro hk
        exact ⟨_, habsent hk, rfl⟩

/-- `{"o":{"it's":null,"a":false,"it's":true}}` at `$['o']`. The name has a quote that paths escape,
and the text has it twice. -/
theorem object_reads_agree_quoted :
    let text := "\x7b\"o\":\x7b\"it's\":null,\"a\":false,\"it's\":true\x7d\x7d"
    let o : Json := .object [("a", .bool false), ("it's", .bool true)]
    let d : Json := .object [("o", o)]
    let t := (Plan.ofPath ⟨.document, [.property "o"]⟩).text
    Json.parse? text = some d ∧ read t d = .ok o ∧
      ∃ ks : List String, read (t ++ ".keys()") d = .ok (.array (ks.map .string)) ∧
        "it's" ∈ ks ∧ "b" ∉ ks ∧ read (t ++ ".length()") d = .ok (.ofInt ks.length) ∧
        read (t ++ Path.propertyText "it's") d = .ok (.bool true) ∧
        ∃ err, read (t ++ Path.propertyText "b") d = .error err ∧ err.kind = .pathNotFound := by
  intro text o d t
  let es : List (String × Json.Written) :=
    [("it's", .null), ("a", .bool false), ("it's", .bool true)]
  have hparse : Json.parse? text = some d := by cbv
  have hpath : Path.PlainText t ⟨.document, [.property "o"]⟩ :=
    Path.plainText_text _ (by simp [Segment.isCall])
  have hread : read t d = .ok o := by cbv
  have hwrites : Json.Writes text (.object [("o", .object es)]) := by
    have hits : Json.StringText ('"' :: (['i', 't', '\'', 's'] ++ ['"'])) "it's" :=
      .raw (by simp)
    have ha : Json.StringText ('"' :: (['a'] ++ ['"'])) "a" := .raw (by simp)
    have ho : Json.StringText ('"' :: (['o'] ++ ['"'])) "o" := .raw (by simp)
    have hmember {k t : List Char} {name : String} {v : Json.Written} (hk : Json.StringText k name)
        (hv : Json.ScalarText t v) :
        Json.MemberText (Json.ValueText 125) (k ++ ':' :: t) (name, v) :=
      .intro (.bare hk) (.bare (hv.valueText 125))
    have hinner := Json.ContainerText.object (.some (hmember hits .null)
      (.cons (.intro (hmember ha .false)) (.cons (.intro (hmember hits .true)) .nil)))
    have houter := Json.ContainerText.object
      (.some (.intro (.bare ho) (.bare hinner.valueText)) .nil)
    have htext : text.toList = "\x7b\"o\":\x7b\"it's\":null,".toList ++ "\"a\":false,".toList ++
        "\"it's\":true\x7d\x7d".toList := by
      rw [← String.toList_append, ← String.toList_append]
      rfl
    rw [Json.Writes, htext]
    exact .bare houter.valueText
  obtain ⟨_, hreads⟩ := (object_reads_agree hparse).2 _ hwrites
  obtain ⟨l, es', ks, hl, hes, hkeys, _, hmem, hlength, _, hk⟩ := hreads _ _ _ hpath hread
  have hlocation : l = [.member "o"] := by
    cases hl with
    | cons hmeans ht hl =>
      cases hmeans
      cases hl
      rfl
  subst hlocation
  have hes' : es' = es := by
    cases hes
    rfl
  subst hes'
  have hquoted : "it's" ∈ ks := (hmem _).mpr ⟨_, List.mem_cons_self⟩
  have habsent : "b" ∉ ks := by
    rw [hmem]
    simp [es]
  have hlast := (hk "it's").2.1 [("it's", .null), ("a", .bool false)] (.bool true) [] rfl
    fun _ => List.not_mem_nil
  exact ⟨hparse, hread, ks, hkeys, hquoted, habsent, hlength, hlast, (hk "b").2.2 habsent⟩

end JsonPath
