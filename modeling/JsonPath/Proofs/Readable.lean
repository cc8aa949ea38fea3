import JsonPath.Proofs.JsonText
import JsonPath.Proofs.PathText
import JsonPath.Proofs.Yields

/-! What a path text can write: functions are called by identifiers, and the members of a literal
come in the order of their keys. -/
namespace JsonPath

open Reader

/-- A name that can stand behind a dot. -/
def Path.Identifier (name : String) : Prop :=
  ∃ c cs, name.toList = c :: cs ∧ isIdentifierStart c = true ∧ ∀ d ∈ cs, isIdentifierRest d = true

/-- A segment that calls a function, if at all, by an identifier and on arguments of a kind. -/
def Segment.Calls (A : Argument → Prop) : Segment → Prop
  | .call name as => Path.Identifier name ∧ ∀ a ∈ as, A a
  | _ => True

/-- A segment that calls a function, if at all, by an identifier. -/
def Segment.Named (s : Segment) : Prop := s.Calls fun _ => True

namespace Path

/-- Members of a literal are put in the order of their keys when it is read. -/
theorem readLiteral_yields (bound : Nat) : (readLiteral bound).Yields Json.Ordered := by
  induction bound with
  | zero => exact yields_failure
  | succ bound ih =>
    have hmember : Yields (do
        let name ← spaced readString
        spaced (char ':')
        return (name, ← readLiteral bound)) fun m : String × Json => m.2.Ordered :=
      (yields_true _).bind fun name _ => (yields_true _).bind fun _ _ =>
        ih.bind fun v hv => yields_pure hv
    refine Yields.padded ((yields_pure Json.ordered_null).seqRight.orElse ?_)
    refine (yields_pure (Json.ordered_bool true)).seqRight.orElse ?_
    refine (yields_pure (Json.ordered_bool false)).seqRight.orElse ?_
    refine ((yields_true _).map fun n _ => Json.ordered_number n).orElse ?_
    refine ((yields_true _).map fun k _ => Json.ordered_string k).orElse ?_
    refine (ih.sepEndBy.seqRight.seqLeft.map fun es => Json.ordered_array_iff.mpr).orElse ?_
    refine Yields.map (P := fun v => (Json.object v).Ordered) ?_ fun _ hv => hv
    exact hmember.sepEndBy.seqRight.seqLeft.map fun ms hms => Json.ordered_ofList hms

theorem readIdentifier_yields : readIdentifier.Yields Identifier :=
  (yields_satisfy isIdentifierStart).bind fun c hc =>
    (yields_many isIdentifierRest).bind fun cs hcs =>
      yields_pure ⟨c, cs, String.toList_ofList, hc, hcs⟩

variable {A : Argument → Prop} {argument : Reader Argument}

theorem readSegment_yields (h : argument.Yields A) :
    (readSegment argument).Yields (Segment.Calls A) := by
  have hdotted : (readDotted argument).Yields (Segment.Calls A) := by
    refine (yields_true _).bind fun _ _ => readIdentifier_yields.bind fun name hname => ?_
    have harguments : (readArguments argument).Yields fun as => ∀ a ∈ as, A a :=
      h.padded.sepBy.seqRight.seqLeft
    refine harguments.optional.bind fun as has => ?_
    cases as with
    | none => exact yields_pure trivial
    | some as => exact yields_pure ⟨hname, has as rfl⟩
  have hbracketed : readBracketed.Yields (Segment.Calls A) :=
    (((yields_true _).map fun _ _ => trivial).orElse
      ((yields_true _).map fun _ _ => trivial)).padded.seqRight.seqLeft
  exact hdotted.orElse hbracketed

theorem read_yields (literals bound : Nat) (h : (readArgument literals bound).Yields A) :
    (read literals (bound + 1)).Yields fun p => ∀ s ∈ p.segments, s.Calls A := by
  rw [read_succ]
  refine Yields.seq (F := fun g => ∀ ss, (g ss).segments = ss)
    ((yields_true _).map fun _ _ _ => rfl) (readSegment_yields h).repeated fun g ss hg hss => ?_
  rw [hg]
  exact hss

theorem named_of_parse? {text : String} {p : Path} (h : parse? text = some p) :
    ∀ s ∈ p.segments, s.Named :=
  (read_yields _ _ (yields_true _)).padded.all? h

theorem readIdentifier_append {name : String} (hname : Identifier name) {c : Char}
    (hc : isIdentifierRest c = false) (rest : List Char) :
    readIdentifier (name.toList ++ c :: rest) = some (name, c :: rest) := by
  obtain ⟨d, cs, hcons, hd, hcs⟩ := hname
  have hrest : ∀ x ∈ (c :: rest).head?, isIdentifierRest x = false := by
    intro x hx
    cases hx
    exact hc
  have hofList : String.ofList (d :: cs) = name := by rw [← hcons, String.ofList_toList]
  simp only [readIdentifier, bind_apply, hcons, List.cons_append, satisfy, hd, if_true,
    Option.bind_some, many_apply, List.takeWhile_append_of_pos hcs,
    List.dropWhile_append_of_pos hcs, takeWhile_eq_nil hrest, dropWhile_eq_self hrest,
    List.append_nil, hofList, pure_apply]

theorem readArguments_of_not_blank (argument : Reader Argument) {c : Char}
    (hc : Text.isBlank c = false) (s : List Char) :
    readArguments argument ('(' :: c :: s) =
      (sepBy (spaced argument) comma <* char ')') (c :: s) := by
  have hopen : spaced (char '(') ('(' :: c :: s) = some ((), c :: s) := by
    rw [spaced_of_not_blank _ (by decide), char_self, Option.map_some, dropWhile_of_not_blank hc]
  simp only [readArguments, seqRight_apply, seqLeft_apply, hopen, Option.bind_some]

/-- A name before an opening parenthesis is called if arguments follow, and else a property. -/
theorem readSegment_of_name (argument : Reader Argument) {name : String} (hname : Identifier name)
    (s : List Char) :
    readSegment argument ('.' :: (name.toList ++ '(' :: s)) =
      match readArguments argument ('(' :: s) with
      | some (as, rest) => some (.call name as, rest)
      | none => some (.property name, '(' :: s) := by
  have hidentifier := readIdentifier_append hname (show isIdentifierRest '(' = false by decide) s
  simp only [readSegment, orElse_apply, readDotted, bind_apply, char_self, Option.bind_some,
    hidentifier, optional_apply]
  cases readArguments argument ('(' :: s) with
  | none => rfl
  | some q => rfl

end Path
end JsonPath
