import JsonPath.Text.Hidden

/-! Strings quoted for diagnosis. -/
namespace JsonPath.Text

/-- Characters that cannot be shown are written as code points. -/
def debugEscape (c : Char) : List Char :=
  match c with
  | '"' => ['\\', '"']
  | '\\' => ['\\', '\\']
  | '\n' => ['\\', 'n']
  | '\r' => ['\\', 'r']
  | '\t' => ['\\', 't']
  | _ =>
    if c.toNat = 0 then ['\\', '0']
    else if isHidden c then '\\' :: 'u' :: '{' :: Nat.toDigits 16 c.toNat ++ ['}']
    else [c]

def debugQuote (s : String) : String := .ofList ('"' :: s.toList.flatMap debugEscape ++ ['"'])

end JsonPath.Text
