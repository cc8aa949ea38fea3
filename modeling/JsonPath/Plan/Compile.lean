import JsonPath.Path.Parser
import JsonPath.Plan.Basic

/-! From paths to plans. -/
namespace JsonPath

mutual

/-- The tokens are made in the order of the segments and linked from the last one on. A literal is
kept as its JSON text. -/
def Plan.ofPath : Path → Plan
  | ⟨root, segments⟩ => ⟨root, Token.link (Token.ofSegments segments)⟩

def Token.ofSegments : List Segment → List Token
  | [] => []
  | s :: ss => Token.ofSegment s :: Token.ofSegments ss

def Token.ofSegment : Segment → Token
  | .property name => .property name
  | .index position => .index position
  | .call name arguments => .ofCall name (Parameter.ofArguments arguments)

def Parameter.ofArguments : List Argument → List Parameter
  | [] => []
  | a :: as => Parameter.ofArgument a :: Parameter.ofArguments as

def Parameter.ofArgument : Argument → Parameter
  | .literal v => .literal v.text
  | .path p => .subPath (Plan.ofPath p)

end

theorem Token.ofSegments_eq (ss : List Segment) : Token.ofSegments ss = ss.map Token.ofSegment := by
  induction ss with
  | nil => rfl
  | cons s ss ih => rw [Token.ofSegments, ih, List.map_cons]

theorem Plan.tokens_ofPath (p : Path) : (ofPath p).tokens = Token.ofSegments p.segments := by
  obtain ⟨root, ss⟩ := p
  exact Token.link_eq (Token.ofSegments ss)

theorem Plan.chain_ofPath (p : Path) :
    (ofPath p).chain = .root p.root.symbol :: Token.ofSegments p.segments := by
  rw [chain, tokens_ofPath]
  cases p
  rfl

/-- What holds of the root token and of the token of each segment holds of the whole chain. -/
theorem Plan.forall_mem_chain_ofPath {P : Token → Prop} (root : Root) {ss : List Segment}
    (hroot : P (.root root.symbol)) (h : ∀ s ∈ ss, P (Token.ofSegment s)) :
    ∀ t ∈ (ofPath ⟨root, ss⟩).chain, P t := by
  rw [chain_ofPath, Token.ofSegments_eq]
  exact List.forall_mem_cons.mpr ⟨hroot, List.forall_mem_map.mpr h⟩

theorem Parameter.ofArguments_eq (as : List Argument) :
    Parameter.ofArguments as = as.map Parameter.ofArgument := by
  induction as with
  | nil => rfl
  | cons a as ih => rw [Parameter.ofArguments, ih, List.map_cons]

def Plan.compile (text : String) : Except EvalError Plan :=
  match Path.parse? text with
  | some p => .ok (.ofPath p)
  | none => .error (.malformedPath text)

theorem Plan.compile_eq_ok_iff {text : String} {plan : Plan} :
    compile text = .ok plan ↔ ∃ p, Path.parse? text = some p ∧ ofPath p = plan := by
  unfold compile
  cases Path.parse? text <;> simp

end JsonPath
