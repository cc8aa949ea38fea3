import JsonPath.Decimal.Layout
import JsonPath.Json.Basic

/-! JSON text of a value, compact or indented. -/
namespace JsonPath

/-- Doubles are positional from `0.00001` up to sixteen digits before the point. -/
def Number.layout : Decimal.Layout := ⟨-4, 16⟩

private def Double.sign : Float.Model.UnpackedFloat.Sign → List Char
  | .negative => ['-']
  | .positive => []

/-- The shortest digits that read back. -/
def Double.text (x : Double) : List Char :=
  match x.unpack with
  | .finite s m e _ => sign s ++ ((Decimal.shortest? m e).elim [] Number.layout.write)
  | .zero s => sign s ++ ['0', '.', '0']
  | _ => []

def Number.text : Number → List Char
  | .integer n => Text.ofInt n.value
  | .double x => x.text

namespace Json

/-- A character inside a string. Only the quote, the backslash and the controls below `U+0020` are
escaped. -/
def escape (c : Char) : List Char :=
  match c with
  | '"' => ['\\', '"']
  | '\\' => ['\\', '\\']
  | '\n' => ['\\', 'n']
  | '\r' => ['\\', 'r']
  | '\t' => ['\\', 't']
  | _ =>
    if c = Char.ofNat 8 then ['\\', 'b']
    else if c = Char.ofNat 12 then ['\\', 'f']
    else if c.toNat < 32 then
      ['\\', 'u', '0', '0', Nat.digitChar (c.toNat / 16), Nat.digitChar (c.toNat % 16)]
    else [c]

def quote (s : String) : List Char := '"' :: s.toList.flatMap escape ++ ['"']

mutual

/-- No blanks between tokens. -/
def print : Json → List Char
  | null => ['n', 'u', 'l', 'l']
  | bool true => ['t', 'r', 'u', 'e']
  | bool false => ['f', 'a', 'l', 's', 'e']
  | number n => n.text
  | string s => quote s
  | array es => '[' :: printElements es ++ [']']
  | object ms => '{' :: printMembers ms ++ ['}']

def printElements : List Json → List Char
  | [] => []
  | [v] => print v
  | v :: vs => print v ++ ',' :: printElements vs

def printMembers : List (String × Json) → List Char
  | [] => []
  | [(k, v)] => quote k ++ ':' :: print v
  | (k, v) :: ms => quote k ++ ':' :: print v ++ ',' :: printMembers ms

end

def text (v : Json) : String := .ofList v.print

private def newline (level : Nat) : List Char := '\n' :: List.replicate (2 * level) ' '

mutual

/-- Each element and member on a line of its own, two blanks further in than its container; empty
containers stay on one line. -/
def printIndented (level : Nat) : Json → List Char
  | array [] => ['[', ']']
  | array es => '[' :: indentedElements (level + 1) es ++ newline level ++ [']']
  | object [] => ['{', '}']
  | object ms => '{' :: indentedMembers (level + 1) ms ++ newline level ++ ['}']
  | v => print v

def indentedElements (level : Nat) : List Json → List Char
  | [] => []
  | [v] => newline level ++ printIndented level v
  | v :: vs => newline level ++ printIndented level v ++ ',' :: indentedElements level vs

def indentedMembers (level : Nat) : List (String × Json) → List Char
  | [] => []
  | [(k, v)] => newline level ++ quote k ++ ':' :: ' ' :: printIndented level v
  | (k, v) :: ms =>
    newline level ++ quote k ++ ':' :: ' ' :: printIndented level v ++ ',' ::
      indentedMembers level ms

end

def indentedText (v : Json) : String := .ofList (v.printIndented 0)

end Json
end JsonPath
