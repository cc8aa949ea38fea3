import JsonPath.Proofs.PathText

/-! The chain of a compiled path: its tokens stand in the order of the segments, and whether the
last of them is a call shows in the last character of its text, whatever names there are in the
path. -/
namespace JsonPath

namespace Token

/-- Going on from token to token passes all of them in their order. -/
theorem head?_iterate_next (ts : List Token) (i : Nat) : (next^[i] ts).head? = ts[i]? := by
  induction i generalizing ts with
  | zero => exact List.head?_eq_getElem? ..
  | succ i ih =>
    rw [Function.iterate_succ_apply, ih]
    cases ts <;> rfl

/-- Names stand in brackets and quotes, positions in brackets, and arguments in parentheses. -/
theorem getLast?_text_ofSegment (s : Segment) :
    (ofSegment s).text.toList.getLast? = some (if s.isCall then ')' else ']') := by
  cases s with
  | property name =>
    have htext : (ofSegment (.property name)).text.toList =
        ('[' :: '\'' :: name.toList.flatMap Path.escapeProperty ++ ['\'']) ++ [']'] := by
      simp [ofSegment, text, Path.toList_propertyText]
    rw [htext, List.getLast?_concat]
    rfl
  | index i =>
    have htext : (ofSegment (.index i)).text.toList = ('[' :: Text.ofInt i.toInt) ++ [']'] := by
      simp [ofSegment, text, Path.toList_indexText]
    rw [htext, List.getLast?_concat]
    rfl
  | call name as =>
    obtain ⟨cs, hcs⟩ : ∃ cs, (ofSegment (.call name as)).text.toList = cs ++ [')'] := by
      cases as with
      | nil =>
        refine ⟨'.' :: (name.toList ++ ['(']), ?_⟩
        simp [ofSegment, ofCall, Parameter.ofArguments, text]
      | cons a as =>
        refine ⟨'.' :: (name.toList ++ ['(', '.', '.', '.']), ?_⟩
        simp [ofSegment, ofCall, Parameter.ofArguments, text]
    rw [hcs, List.getLast?_concat]
    rfl

end Token

namespace Plan

theorem isFunctionPath_ofPath (p : Path) :
    (ofPath p).isFunctionPath = p.segments.getLast?.any Segment.isCall := by
  obtain ⟨root, ss⟩ := p
  have hlast : (ofPath ⟨root, ss⟩).tokens.getLast? = ss.getLast?.map Token.ofSegment := by
    rw [tokens_ofPath, Token.ofSegments_eq, List.getLast?_map]
  unfold isFunctionPath
  rw [hlast]
  cases ss.getLast? with
  | none => rfl
  | some s =>
    simp only [Option.map_some, Token.getLast?_text_ofSegment, Option.any_some]
    cases s.isCall <;> rfl

/-- The text of the last token tells the paths that end in a call from all others. The tokens of a
path are linked from the last one on, and going on from the root passes one for each segment, in the
order of the segments, and nothing behind them. No token selects more than one value. -/
theorem isFunctionPath_iff (p : Path) :
    ((ofPath p).isFunctionPath = true ↔
      ∃ (before : List Segment) (name : String) (as : List Argument),
        p.segments = before ++ [.call name as]) ∧
    (ofPath p).tokens = Token.link (p.segments.map Token.ofSegment) ∧
    (Token.next^[0] (ofPath p).chain).head? = some (.root p.root.symbol) ∧
    (∀ i, (Token.next^[i + 1] (ofPath p).chain).head? = p.segments[i]?.map Token.ofSegment) ∧
    (ofPath p).isDefinite = true := by
  have htokens : (ofPath p).tokens = p.segments.map Token.ofSegment := by
    rw [tokens_ofPath, Token.ofSegments_eq]
  refine ⟨?_, ?_, ?_, ?_, isDefinite_eq_true _⟩
  · rw [isFunctionPath_ofPath]
    constructor
    · intro h
      rw [Option.any_eq_true] at h
      obtain ⟨s, hs, hcall⟩ := h
      obtain ⟨before, hbefore⟩ := List.getLast?_eq_some_iff.mp hs
      cases s with
      | call name as => exact ⟨before, name, as, hbefore⟩
      | _ => cases hcall
    · intro h
      obtain ⟨before, name, as, hsegments⟩ := h
      rw [hsegments, List.getLast?_concat]
      rfl
  · rw [Token.link_eq, htokens]
  · rw [Token.head?_iterate_next]
    obtain ⟨root, ss⟩ := p
    rfl
  · intro i
    rw [Token.head?_iterate_next, chain, List.getElem?_cons_succ, htokens, List.getElem?_map]

end Plan
end JsonPath
