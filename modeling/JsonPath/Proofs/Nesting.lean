import JsonPath.Proofs.Recognition

/-! Paths write literals of every depth. -/
namespace JsonPath.Path

/-- Brackets around `null`, as many as wanted. -/
def nested : Nat → Json
  | 0 => .null
  | n + 1 => .array [nested n]

def nestedText : Nat → List Char
  | 0 => ['n', 'u', 'l', 'l']
  | n + 1 => '[' :: (nestedText n ++ [']'])

theorem depth_nested (n : Nat) : (nested n).depth = n := by
  induction n with
  | zero => rfl
  | succ n ih => simp [nested, Json.depth, Json.elementsDepth, ih]

theorem integral_nested (n : Nat) : (nested n).Integral := by
  induction n with
  | zero =>
    intro x h
    cases h
  | succ n ih =>
    refine ⟨?_, ih, trivial⟩
    intro x h
    cases h

theorem bareText_nested (n : Nat) : BareText (nestedText n) (nested n) := by
  induction n with
  | zero => exact .null
  | succ n ih =>
    have hitems : Items LiteralText (nestedText n) [nested n] := .listed (.some (.one (.bare ih)))
    exact .array (.intro (Mark.bare '[') hitems (Mark.bare ']'))

/-- Calls can be written with literals of any depth. -/
theorem parse?_call_nested {cs : List Char} {name : String} (hname : NameText cs name) (n : Nat) :
    parse? (.ofList ('$' :: '.' :: (cs ++ '(' :: (nestedText n ++ [')'])))) =
      some ⟨.document, [.call name [.literal (nested n)]]⟩ :=
  parse?_of_derives (derives_call .document hname (.bare (bareText_nested n)))

theorem parse?_nested (n : Nat) : parse? (.ofList ("$.f(".toList ++ (nestedText n ++ [')']))) =
    some ⟨.document, [.call "f" [.literal (nested n)]]⟩ := by
  have hname : NameText ['f'] "f" := .intro (by decide) (by simp)
  have htext : "$.f(".toList ++ (nestedText n ++ [')']) =
      '$' :: '.' :: (['f'] ++ '(' :: (nestedText n ++ [')'])) := by simp
  rw [htext]
  exact parse?_call_nested hname n

end JsonPath.Path
