import JsonPath.Json.Basic
import JsonPath.Text.Integer

/-! Paths as written: a root symbol and the steps below it. -/
namespace JsonPath

/-- `$`, the document, or `@`, the value that a function runs on. -/
inductive Root where
  | document
  | current
  deriving DecidableEq, Repr

def Root.symbol : Root → Char
  | document => '$'
  | current => '@'

mutual

structure Path where
  root : Root
  segments : List Segment

inductive Segment where
  | property (name : String)
  | index (position : Int64)
  | call (name : String) (arguments : List Argument)

inductive Argument where
  | literal (value : Json)
  | path (p : Path)

end

/-- What holds of a path if it holds of the paths in the arguments of its calls holds of all
paths. -/
@[elab_as_elim]
theorem Path.induction {motive : Path → Prop}
    (step : ∀ (root : Root) (ss : List Segment),
      (∀ name as, .call name as ∈ ss → ∀ q, .path q ∈ as → motive q) → motive ⟨root, ss⟩)
    (p : Path) : motive p := by
  match p with
  | ⟨root, ss⟩ =>
    refine step root ss fun name as hs q hq => ?_
    have hlt : sizeOf q < sizeOf (Path.mk root ss) := by
      have hsegment := List.sizeOf_lt_of_mem hs
      have hargument := List.sizeOf_lt_of_mem hq
      simp only [Segment.call.sizeOf_spec, Argument.path.sizeOf_spec] at hsegment hargument
      simp only [Path.mk.sizeOf_spec]
      omega
    exact Path.induction step q
termination_by sizeOf p
decreasing_by exact hlt

namespace Path

def escapeProperty (c : Char) : List Char :=
  if c = '\\' ∨ c = '\'' then ['\\', c] else [c]

/-- The bracket form of a property name, `['name']`. Quotes and backslashes in it are escaped. -/
def propertyText (name : String) : String :=
  "['" ++ .ofList (name.toList.flatMap escapeProperty) ++ "']"

def indexText (position : Int) : String := "[" ++ .ofList (Text.ofInt position) ++ "]"

end Path
end JsonPath
