import JsonPath.Plan.Compile
import JsonPath.Proofs.Chain

/-! What a run records, also one that fails: the hits of the calls that succeed and a last one. -/
namespace JsonPath

theorem Token.isCall_ofSegment (s : Segment) : (Token.ofSegment s).isCall = s.isCall := by
  cases s <;> rfl

theorem Token.length_callHit (before after : Cursor) (t : Token) :
    (t.callHit before after).length = if t.isCall then 1 else 0 := by
  cases t <;> rfl

theorem Token.Journey.length_callHits {r : Resolver} {e : Environment} {c : Cursor}
    {ts : List Token} {cs : List Cursor} (h : Token.Journey r e c ts cs) :
    (Token.callHits c ts cs).length = ts.countP Token.isCall := by
  induction h with
  | nil => rfl
  | @cons c d t ts cs _ _ ih =>
    rw [Token.callHits, List.length_append, ih, Token.length_callHit, List.countP_cons]
    exact Nat.add_comm ..

theorem Token.length_lastHit (ts : List Token) (last : Cursor) :
    (Token.lastHit ts last).length = if ts.getLast?.any (!·.isCall) then 1 else 0 := by
  unfold Token.lastHit
  split <;> rfl

/-- The root is no call, so it alone leaves a last hit. -/
theorem Plan.last_isCall_ofPath (p : Path) :
    (Plan.ofPath p).chain.getLast?.any (!·.isCall) = !p.segments.getLast?.any Segment.isCall := by
  obtain ⟨root, ss⟩ := p
  simp only [Plan.chain_ofPath, Token.ofSegments_eq]
  cases hl : ss.getLast? with
  | none =>
    rw [List.getLast?_eq_none_iff] at hl
    subst hl
    rfl
  | some s =>
    have hne : ss.map Token.ofSegment ≠ [] := by
      intro h
      rw [List.map_eq_nil_iff] at h
      simp [h] at hl
    rw [List.getLast?_cons_of_ne_nil hne, List.getLast?_map, hl]
    simp [Token.isCall_ofSegment]

theorem Plan.countP_isCall_ofPath (p : Path) :
    (Plan.ofPath p).chain.countP Token.isCall = p.segments.countP Segment.isCall := by
  obtain ⟨root, ss⟩ := p
  have hc : Token.isCall ∘ Token.ofSegment = Segment.isCall := funext Token.isCall_ofSegment
  simp [Plan.chain_ofPath, Token.ofSegments_eq, List.countP_map, hc, Token.isCall]

/-- Following a chain adds to the hits and changes none. Each call that succeeds adds one, in order;
a chain that succeeds and ends in another token adds a last one for the value that it reaches. The
token that fails adds nothing, and those behind it are not run. -/
theorem Context.follow_trace (c : Context) (r : Resolver) (start : Cursor) (ts : List Token) :
    (∃ (done rest : List Token) (cs : List Cursor), ts = done ++ rest ∧
      Token.Journey r c.toEnvironment start done cs ∧
      ((rest = [] ∧ c.follow r start ts =
          ({ c with hits := c.hits ++ Token.callHits start done cs ++
              Token.lastHit done (cs.getLastD start) }, .ok ())) ∨
        ∃ (t : Token) (behind : List Token) (err : EvalError), rest = t :: behind ∧
          t.step r c.toEnvironment (cs.getLastD start) = .error err ∧
          c.follow r start ts =
            ({ c with hits := c.hits ++ Token.callHits start done cs }, .error err))) ∧
    ∀ (p : Path) (document root : Json) (configuration : Configuration) (found : Context),
      (Plan.ofPath p).evaluate document root configuration = .ok found →
        found.hits.length = p.segments.countP Segment.isCall +
          if p.segments.getLast?.any Segment.isCall then 0 else 1 := by
  constructor
  · obtain ⟨done, rest, cs, rfl, hj, hr⟩ := Token.exists_journey r c.toEnvironment start ts
    refine ⟨done, rest, cs, rfl, hj, ?_⟩
    cases rest with
    | nil =>
      left
      refine ⟨rfl, ?_⟩
      simp only [List.append_nil, Context.follow, Context.record, hj.walk, List.append_assoc]
    | cons t behind =>
      right
      obtain ⟨err, ht⟩ := hr t rfl
      refine ⟨t, behind, err, rfl, ht, ?_⟩
      simp only [Context.follow, Context.record, hj.walk_append (List.cons_ne_nil t behind),
        Token.walk_fail ht, List.append_nil]
  · intro p document root configuration found h
    obtain ⟨cs, hj⟩ := Plan.exists_journey_of_evaluate h
    rw [Plan.evaluate_of_journey hj] at h
    cases h
    rw [List.length_append, hj.length_callHits, Token.length_lastHit, Plan.countP_isCall_ofPath,
      Plan.last_isCall_ofPath]
    cases p.segments.getLast?.any Segment.isCall <;> rfl

/-- Two calls at the end of `$.a[-1].length().first()` leave two hits. -/
theorem Context.follow_trace_two_calls :
    let p : Path := ⟨.document, [.property "a", .index (-1), .call "length" [], .call "first" []]⟩
    let d : Json := .object [("a", .array [.null, .string "xy"])]
    ∃ found, (Plan.ofPath p).evaluate d d .standard = .ok found ∧ found.hits.length = 2 := by
  intro p d
  have h : (Plan.ofPath p).evaluate d d .standard = .ok ⟨⟨.standard, d⟩, true,
      [⟨"$['a'][1].length", .element 1, .ofInt 2⟩, ⟨"$['a'][1].first", .element 1, .null⟩]⟩ := by
    cbv
  exact ⟨_, h, (Context.follow_trace (.start ⟨.standard, d⟩ true) Closure.value (Plan.start d)
    (Plan.ofPath p).chain).2 p d d .standard _ h⟩

end JsonPath
