import JsonPath.Plan.Basic

/-! How deep plans nest in the arguments of calls. -/
namespace JsonPath

mutual

def Plan.height : Plan → Nat
  | ⟨_, tokens⟩ => Token.maxHeight tokens + 1

def Token.maxHeight : List Token → Nat
  | [] => 0
  | t :: ts => max t.height (Token.maxHeight ts)

def Token.height : Token → Nat
  | .call _ _ ps => Parameter.maxHeight ps
  | _ => 0

def Parameter.maxHeight : List Parameter → Nat
  | [] => 0
  | p :: ps => max p.height (Parameter.maxHeight ps)

def Parameter.height : Parameter → Nat
  | ⟨source, none, _⟩ => source.height
  | ⟨source, some b, _⟩ => max source.height b.height

def Source.height : Source → Nat
  | .path p => p.height
  | _ => 0

def Binding.height : Binding → Nat
  | .path c | .element c _ => c.height
  | .json .. => 0

def Closure.height : Closure → Nat
  | ⟨p, _, _, _⟩ => p.height

end

end JsonPath
