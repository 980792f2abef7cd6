/-! How deep an expression may go. Brackets, call arguments, predicates and products in a row nest
the parser; long chains of operators and runs of predicates only raise the tree. -/

namespace XPathSyntax

structure Limits where
  /-- How many expressions and right sides of products may be open at once. -/
  nesting : Nat := 128
  /-- How high a tree may become. -/
  height : Nat := 512
  deriving DecidableEq

end XPathSyntax
