import JsonPath.Proofs.Failures
import JsonPath.Proofs.Suppression

/-! What a run of the command names as the cause of its failure: the document, then the path, then
the evaluation, whichever is the first to fail. Errors of an evaluation are never taken for errors
of the path text, and a run that fails leaves all files as they were. -/
namespace JsonPath

theorem EvalError.Foreseen.ofEvalError {refused : Prop} {err : EvalError}
    (h : err.Foreseen refused) : CommandError.ofEvalError err = .evaluation err := by
  cases err with
  | malformedPath text => exact h.elim
  | _ => rfl

/-- Why the evaluation of a path that compiles can fail; for malformed JSON only if one of its own
literals is refused. -/
theorem Plan.foreseen_of_compile {text : String} {p : Plan} (h : compile text = .ok p)
    {document root : Json} {c : Configuration} {err : EvalError}
    (herr : p.evaluate document root c = .error err) :
    err.Foreseen (∃ q, Path.parse? text = some q ∧ ∃ v ∈ q.literals, Json.parse? v.text = none) := by
  obtain ⟨q, hq, rfl⟩ := compile_eq_ok_iff.mp h
  have hliteral : ∀ v ∈ q.literals, Json.parse? v.text = none →
      ∃ q, Path.parse? text = some q ∧ ∃ v ∈ q.literals, Json.parse? v.text = none :=
    fun v hv hnone => ⟨q, hq, v, hv, hnone⟩
  exact evaluate_foreseen hliteral document err herr

/-- A literal that nests too deep for a JSON text makes a call fail that reads it. -/
theorem Plan.evaluate_sum_nested {n : Nat} (hn : 127 < n) (document root : Json) :
    (ofPath ⟨.document, [.call "sum" [.literal (Path.nested n)]]⟩).evaluate document root .standard =
      .error (.malformedLiteral (Path.nested n).text) := by
  have hordered : (Path.nested n).Ordered :=
    Path.ordered_of_mem_literals (Path.parse?_nested n) List.mem_cons_self
  have hnone : Json.parse? (Path.nested n).text = none := by
    rw [Json.parse?_text hordered (Path.integral_nested n), Path.depth_nested]
    exact if_neg (Nat.not_le.mpr hn)
  have hsum : Configuration.standard.registry.lookup "sum" = .ok (.aggregate .sum) := by cbv
  rw [evaluate_error_iff]
  simp only [reach, chain_ofPath, Token.ofSegments, Token.ofSegment, Token.ofCall,
    Token.reach_cons, Token.step, Token.invoke_ofArguments, hsum, List.mapIdx_cons,
    List.mapIdx_nil, Argument.operandAt_literal, Binding.operand_json_of_none hnone]
  rfl

namespace Settings

variable {s : Settings} {text : String} {document : Json} {p : Plan} {err : EvalError}

theorem render_of_malformed_document (h : Json.parse? text = none) :
    s.render (some text) = .error .document := by
  simp only [render, h]

theorem render_of_malformed_path (hdocument : Json.parse? text = some document)
    (h : Plan.compile s.path = .error err) : s.render (some text) = .error (.path s.path) := by
  have herr : err = .malformedPath s.path := by
    unfold Plan.compile at h
    cases hp : Path.parse? s.path with
    | none => rw [hp] at h; exact (Except.error.inj h).symm
    | some q => rw [hp] at h; cases h
  subst herr
  simp only [render, hdocument, h]
  rfl

theorem render_of_error (hs : s.suppressErrors = false)
    (hdocument : Json.parse? text = some document) (hp : Plan.compile s.path = .ok p)
    (h : p.evaluate document document .standard = .error err) :
    s.render (some text) = .error (.evaluation err) := by
  have hsame : p.evaluate document document s.configuration = .error err :=
    Plan.evaluate_error_setOptions h s.options
  have hanswer : s.answer p document = .error err := by
    rw [answer_of_error hsame]
    exact if_neg fun hsuppress => by simp [hs] at hsuppress
  have hreport : CommandError.ofEvalError err = .evaluation err :=
    (Plan.foreseen_of_compile hp h).ofEvalError
  rw [render_eq hdocument hp, hanswer, ← hreport]
  rfl

theorem render_of_ok (hdocument : Json.parse? text = some document)
    (hp : Plan.compile s.path = .ok p) {found : Context}
    (h : p.evaluate document document .standard = .ok found) :
    ∃ output, s.render (some text) = .ok output := by
  obtain ⟨found', hsame, _⟩ := Plan.evaluate_ok_setOptions h s.options
  obtain ⟨hit, _, hanswer⟩ := answer_of_ok (s := s) hsame
  rw [render_eq hdocument hp, hanswer]
  exact ⟨_, rfl⟩

/-- How a run that does not suppress errors ends, and the stage that settles it. -/
inductive Ends (s : Settings) (text : String) : Except CommandError String → Prop where
  | document (h : Json.parse? text = none) : Ends s text (.error .document)
  | path {document : Json} {err : EvalError} (hdocument : Json.parse? text = some document)
      (h : Plan.compile s.path = .error err) : Ends s text (.error (.path s.path))
  | evaluation {document : Json} {p : Plan} {err : EvalError}
      (hdocument : Json.parse? text = some document) (hp : Plan.compile s.path = .ok p)
      (h : p.evaluate document document .standard = .error err) :
    Ends s text (.error (.evaluation err))
  | answer {document : Json} {p : Plan} {found : Context} {output : String}
      (hdocument : Json.parse? text = some document) (hp : Plan.compile s.path = .ok p)
      (h : p.evaluate document document .standard = .ok found) : Ends s text (.ok output)

theorem ends_render (hs : s.suppressErrors = false) (text : String) :
    s.Ends text (s.render (some text)) := by
  cases hdocument : Json.parse? text with
  | none =>
    rw [render_of_malformed_document hdocument]
    exact .document hdocument
  | some document =>
    cases hp : Plan.compile s.path with
    | error err =>
      rw [render_of_malformed_path hdocument hp]
      exact .path hdocument hp
    | ok p =>
      cases h : p.evaluate document document .standard with
      | error err =>
        rw [render_of_error hs hdocument hp h]
        exact .evaluation hdocument hp h
      | ok found =>
        obtain ⟨output, houtput⟩ := render_of_ok hdocument hp h
        rw [houtput]
        exact .answer hdocument hp h

section
variable (hs : s.suppressErrors = false)
include hs

theorem render_eq_document_iff :
    s.render (some text) = .error .document ↔ Json.parse? text = none := by
  have hends := ends_render hs text
  constructor
  · intro h
    rw [h] at hends
    cases hends with
    | document hdocument => exact hdocument
  · exact render_of_malformed_document

theorem render_eq_path_iff (hdocument : Json.parse? text = some document) (t : String) :
    s.render (some text) = .error (.path t) ↔
      t = s.path ∧ ∃ err, Plan.compile s.path = .error err := by
  have hends := ends_render hs text
  constructor
  · intro h
    rw [h] at hends
    cases hends with
    | path _ hp => exact ⟨rfl, _, hp⟩
  · intro h
    obtain ⟨rfl, err, hp⟩ := h
    exact render_of_malformed_path hdocument hp

theorem render_eq_evaluation_iff (hdocument : Json.parse? text = some document)
    (hp : Plan.compile s.path = .ok p) (err : EvalError) :
    s.render (some text) = .error (.evaluation err) ↔
      p.evaluate document document .standard = .error err := by
  have hends := ends_render hs text
  constructor
  · intro h
    rw [h] at hends
    cases hends with
    | evaluation hdocument' hp' he =>
      rw [hdocument] at hdocument'
      rw [hp] at hp'
      cases hdocument'
      cases hp'
      exact he
  · exact render_of_error hs hdocument hp

end

/-- Nothing is written or printed by a run that has nothing to show. -/
theorem run_of_render_error {standardInput : String} {fs : Files} {e : CommandError}
    (h : s.render (s.inputText standardInput fs) = .error e) :
    s.run standardInput fs = ⟨fs, "", .error e⟩ := by
  unfold run
  rw [h]

/-- A run that does not suppress errors fails for the document exactly if that is not JSON; else for
the path exactly if its text does not compile; else with the error of the evaluation, whatever is
asked to be printed. That error is never one of a malformed path or of an unbound parameter, and one
of malformed JSON only if a literal of the path is refused. Whatever fails, nothing is written. -/
theorem failure_names_cause (hs : s.suppressErrors = false) {standardInput : String} {fs : Files}
    (hinput : s.inputText standardInput fs = some text) :
    let outcome := s.render (s.inputText standardInput fs)
    (outcome = .error .document ↔ Json.parse? text = none) ∧
    (∀ document, Json.parse? text = some document →
      (∀ t, outcome = .error (.path t) ↔ t = s.path ∧ ∃ err, Plan.compile s.path = .error err) ∧
      ∀ p, Plan.compile s.path = .ok p →
        (∀ err, outcome = .error (.evaluation err) ↔
          p.evaluate document document .standard = .error err) ∧
        (∀ found, p.evaluate document document .standard = .ok found →
          ∃ output, outcome = .ok output) ∧
        ∀ err, p.evaluate document document .standard = .error err →
          err.kind ≠ .invalidPath ∧ err.kind ≠ .unboundParameter ∧
          (err.kind = .invalidJson →
            ∃ q, Path.parse? s.path = some q ∧ ∃ v ∈ q.literals, Json.parse? v.text = none)) ∧
    ∀ e, outcome = .error e → s.run standardInput fs = ⟨fs, "", .error e⟩ := by
  intro outcome
  have houtcome : outcome = s.render (some text) := congrArg s.render hinput
  refine ⟨?_, ?_, fun e => run_of_render_error⟩
  · rw [houtcome]
    exact render_eq_document_iff hs
  · rw [houtcome]
    intro document hdocument
    refine ⟨render_eq_path_iff hs hdocument, ?_⟩
    intro p hp
    refine ⟨render_eq_evaluation_iff hs hdocument hp, fun _ => render_of_ok hdocument hp, ?_⟩
    intro err he
    have hkind := (Plan.foreseen_of_compile hp he).kind
    constructor
    · intro hk
      simp [hk] at hkind
    constructor
    · intro hk
      simp [hk] at hkind
    · intro hk
      simpa [hk] using hkind

/-- Asks for all hits, laid out, in the file `out`. -/
def writing (path : String) : Settings :=
  ⟨path, "in", some "out", "warn", true, false, true, false, true⟩

/-- The literal `[[…]]` of 128 brackets is a fault of the evaluation; the files stay as they were. -/
theorem failure_names_cause_nested :
    let fs (content : String) : Files := fun n => if n = "in" then some content else some "old"
    let deep : String :=
      .ofList ('$' :: '.' :: (['s', 'u', 'm'] ++ '(' :: (Path.nestedText 128 ++ [')'])))
    (writing "$.a").run "" (fs "[1") = ⟨fs "[1", "", .error .document⟩ ∧
      (writing "$.a.").run "" (fs "[1]") = ⟨fs "[1]", "", .error (.path "$.a.")⟩ ∧
      (writing deep).run "" (fs "[1]") =
        ⟨fs "[1]", "", .error (.evaluation (.malformedLiteral (Path.nested 128).text))⟩ := by
  intro fs deep
  have hin (path content : String) :
      (writing path).inputText "" (fs content) = some content := rfl
  have hdocument : Json.parse? "[1]" = some (.array [.ofInt 1]) := by cbv
  refine ⟨?_, ?_, ?_⟩
  · obtain ⟨hbroken, _, hrun⟩ := failure_names_cause (s := writing "$.a") rfl (hin _ "[1")
    exact hrun _ (hbroken.mpr (by cbv))
  · obtain ⟨_, hcauses, hrun⟩ := failure_names_cause (s := writing "$.a.") rfl (hin _ "[1]")
    have hpath : Plan.compile "$.a." = .error (.malformedPath "$.a.") := by cbv
    exact hrun _ (((hcauses _ hdocument).1 _).mpr ⟨rfl, _, hpath⟩)
  · obtain ⟨_, hcauses, hrun⟩ := failure_names_cause (s := writing deep) rfl (hin _ "[1]")
    have hname : Path.NameText ['s', 'u', 'm'] "sum" := .intro (by decide) (by simp; decide)
    have hparse := Path.parse?_call_nested hname 128
    have hcompile := Plan.compile_eq_ok_iff.mpr ⟨_, hparse, rfl⟩
    have he := Plan.evaluate_sum_nested (n := 128) (by decide) (.array [.ofInt 1]) (.array [.ofInt 1])
    exact hrun _ ((((hcauses _ hdocument).2 _ hcompile).1 _).mpr he)

end Settings
end JsonPath
