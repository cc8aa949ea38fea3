import JsonPath.CommandLine.Run
import JsonPath.Proofs.Options

/-! Suppressed errors on the command line. An answer is always given; a list of hits is given for an
evaluation that finds some, and otherwise its error is reported as if nothing were suppressed. -/
namespace JsonPath.Settings

variable {s : Settings} {text : String} {document : Json} {p : Plan}

theorem render_eq (hdocument : Json.parse? text = some document)
    (hp : Plan.compile s.path = .ok p) :
    s.render (some text) =
      ((s.answer p document).mapError CommandError.ofEvalError).map s.layOut := by
  simp only [render, hdocument, hp]
  cases h : s.answer p document with
  | ok v => simp [Except.mapError, h, bind, Except.bind, pure, Except.pure, Except.map]
  | error err => simp [Except.mapError, h, bind, Except.bind, Except.map]

theorem answer_of_ok {found : Context}
    (h : p.evaluate document document s.configuration = .ok found) :
    ∃ hit, found.hits.getLast? = some hit ∧ s.answer p document =
      .ok (if s.hits then .array (found.hits.map Hit.toJson) else s.options.shape hit) := by
  obtain ⟨hit, hlast, hread⟩ := Plan.read_of_ok h s.options
  refine ⟨hit, hlast, ?_⟩
  unfold answer
  split
  · rw [h]
    rfl
  · exact hread

theorem answer_of_error {err : EvalError}
    (h : p.evaluate document document s.configuration = .error err) : s.answer p document =
      if s.suppressErrors ∧ ¬ s.hits then
        .ok (if s.pathList ∨ s.alwaysList then .array [] else .null)
      else .error err := by
  have hread : p.read s.configuration document =
      if s.suppressErrors then .ok (if s.pathList ∨ s.alwaysList then .array [] else .null)
      else .error err := Plan.read_of_error h s.options
  unfold answer
  by_cases hhits : s.hits
  · rw [if_pos hhits, if_neg fun hs => hs.2 hhits, h]
    rfl
  · rw [if_neg hhits, hread]
    simp only [hhits, Bool.false_eq_true, not_false_eq_true, and_true]

/-- What is printed when errors are suppressed, for a document and a path that are well-formed. -/
theorem render_suppressed (hs : s.suppressErrors = true)
    (hdocument : Json.parse? text = some document) (hp : Plan.compile s.path = .ok p) :
    (s.hits = false → ∃ output, s.render (some text) = .ok output) ∧
      match p.evaluate document document s.configuration with
      | .ok found => ∃ hit, found.hits.getLast? = some hit ∧ s.render (some text) =
          .ok (s.layOut
            (if s.hits then .array (found.hits.map Hit.toJson) else s.options.shape hit))
      | .error err => s.render (some text) =
          if s.hits then .error (.ofEvalError err)
          else .ok (s.layOut (if s.pathList ∨ s.alwaysList then .array [] else .null)) := by
  rw [render_eq hdocument hp]
  cases h : p.evaluate document document s.configuration with
  | ok found =>
    obtain ⟨hit, hlast, hanswer⟩ := answer_of_ok h
    rw [hanswer]
    exact ⟨fun _ => ⟨_, rfl⟩, hit, hlast, rfl⟩
  | error err =>
    rw [answer_of_error h]
    cases s.hits with
    | false =>
      rw [if_pos (by simp [hs])]
      exact ⟨fun _ => ⟨_, rfl⟩, rfl⟩
    | true =>
      rw [if_neg (by simp)]
      refine ⟨fun hhits => ?_, rfl⟩
      cases hhits

/-- Suppresses errors, and asks for all hits or not. -/
def suppressing (path : String) (hits : Bool) : Settings :=
  ⟨path, "-", none, "warn", false, false, false, true, hits⟩

theorem render_suppressed_missing :
    (suppressing "$.b" false).render (some "\x7b\"a\": 1\x7d") = .ok "null" ∧
      (suppressing "$.b" true).render (some "\x7b\"a\": 1\x7d") =
        .error (.evaluation (.noMember "b" "$")) := by
  have hdocument : Json.parse? "\x7b\"a\": 1\x7d" = some (.object [("a", .ofInt 1)]) := by cbv
  have hpath (hits : Bool) : Plan.compile (suppressing "$.b" hits).path =
      .ok (Plan.ofPath ⟨.document, [.property "b"]⟩) := by cbv
  have hanswer := (render_suppressed (s := suppressing "$.b" false) rfl hdocument (hpath false)).2
  have hhits := (render_suppressed (s := suppressing "$.b" true) rfl hdocument (hpath true)).2
  exact ⟨hanswer, hhits⟩

/-- With all hits asked for, a member that is missing is an error still. -/
theorem hits_not_suppressed : ¬ ∀ (s : Settings) (text : String) (document : Json) (p : Plan),
    s.suppressErrors = true → Json.parse? text = some document → Plan.compile s.path = .ok p →
      ∃ output, s.render (some text) = .ok output := by
  intro h
  have hrender : (suppressing "$.b" true).render (some "\x7b\"a\": 1\x7d") =
      .error (.evaluation (.noMember "b" "$")) := by cbv
  obtain ⟨output, houtput⟩ := h (suppressing "$.b" true) "\x7b\"a\": 1\x7d"
    (.object [("a", .ofInt 1)]) (Plan.ofPath ⟨.document, [.property "b"]⟩) rfl (by cbv) (by cbv)
  rw [hrender] at houtput
  cases houtput

end JsonPath.Settings
