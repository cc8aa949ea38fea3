import JsonPath.Configuration
import JsonPath.Path.Basic

/-! Compiled paths: a chain of tokens, whose calls carry parameters that are bound anew in each
evaluation. -/
namespace JsonPath

mutual

/-- The chain starts with a token for the root, which is not in the list. -/
structure Plan where
  root : Root
  tokens : List Token

inductive Token where
  | root (symbol : Char)
  | property (name : String)
  | index (position : Int64)
  /-- `bare` calls are written with empty parentheses. -/
  | call (name : String) (bare : Bool) (parameters : List Parameter)

structure Parameter where
  source : Source
  binding : Option Binding
  resolved : Bool

/-- What a parameter was made from. -/
inductive Source where
  | literal (text : String)
  | path (plan : Plan)
  | none

/-- What a parameter stands for in one evaluation. It is computed whenever the parameter is read. -/
inductive Binding where
  | json (text : String) (configuration : Configuration)
  | path (closure : Closure)
  /-- One element of what a path gives. -/
  | element (closure : Closure) (position : Nat)

/-- A path with all that its evaluation needs. -/
structure Closure where
  plan : Plan
  document : Json
  root : Json
  configuration : Configuration

end

namespace Source

def kind : Source → String
  | literal _ => "Literal"
  | path _ => "SubPath"
  | none => "Unbound"

end Source

namespace Parameter

def ofSource (s : Source) : Parameter := ⟨s, .none, false⟩

def literal (text : String) : Parameter := ofSource (.literal text)

def subPath (p : Plan) : Parameter := ofSource (.path p)

def unbound : Parameter := ofSource .none

/-- The binding changes; the mark that tells whether the parameter is resolved does not. -/
def setBinding (p : Parameter) (b : Binding) : Parameter := { p with binding := some b }

def markResolved (p : Parameter) (resolved : Bool) : Parameter := { p with resolved := resolved }

end Parameter

namespace Token

/-- A call is bare if it is made without parameters. -/
def ofCall (name : String) (parameters : List Parameter) : Token :=
  .call name parameters.isEmpty parameters

/-- The text of a call stays as it is. -/
def setParameters (parameters : List Parameter) : Token → Token
  | call name bare _ => call name bare parameters
  | t => t

/-- Every token selects at most one value. -/
def isDefinite : Token → Bool
  | root _ | property _ | index _ | call .. => true

/-- Arguments are elided. -/
def text : Token → String
  | root symbol => symbol.toString
  | property name => Path.propertyText name
  | index position => Path.indexText position.toInt
  | call name bare _ => "." ++ name ++ if bare then "()" else "(...)"

/-- Links tokens from the last one on: each is put before what is linked already. -/
def link (ts : List Token) : List Token := ts.reverse.foldl (fun next t => t :: next) []

/-- What is linked behind the first token. -/
def next (ts : List Token) : List Token := ts.tail

theorem link_eq (ts : List Token) : link ts = ts := by
  unfold link
  rw [List.foldl_reverse]
  induction ts with
  | nil => rfl
  | cons t ts ih => rw [List.foldr_cons, ih]

end Token

namespace Plan

def chain (p : Plan) : List Token := .root p.root.symbol :: p.tokens

def text (p : Plan) : String := .join (p.chain.map Token.text)

def isDefinite (p : Plan) : Bool := p.chain.all Token.isDefinite

/-- Whether the path starts from the document. -/
def isRootPath (p : Plan) : Bool := p.root == .document

/-- Whether the text of the last token ends in a closing parenthesis; the root is no token here. -/
def isFunctionPath (p : Plan) : Bool :=
  match p.tokens.getLast? with
  | some t => t.text.toList.getLast? == some ')'
  | none => false

end Plan
end JsonPath
