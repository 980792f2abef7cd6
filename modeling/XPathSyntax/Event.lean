import XPathSyntax.Error

/-! What the library reports about its work, in the order in which it happens. -/

namespace XPathSyntax

inductive Event where
  | parseFailed (error : Error)
  /-- A tree was found under its text. -/
  | hit (text : String)
  /-- A text has been parsed and is about to be stored; `blank` if it holds no token. -/
  | miss (text : String) (blank : Bool)
  /-- An entry was pushed out by a new one. -/
  | eviction (text : String)
  deriving DecidableEq

def Event.ofResult {α : Type} : Except Error α → List Event
  | .ok _ => []
  | .error error => [.parseFailed error]

end XPathSyntax
