/-! The fourteen binary operators and the seven levels at which they bind. -/

namespace XPathSyntax

/-- The levels of binding, loosest first. -/
inductive Level where
  | or
  | and
  | equality
  | relational
  | additive
  | multiplicative
  | union
  deriving DecidableEq

def Level.rank : Level → Nat
  | or => 0
  | and => 1
  | equality => 2
  | relational => 3
  | additive => 4
  | multiplicative => 5
  | union => 6

theorem Level.rank_injective {a b : Level} (h : a.rank = b.rank) : a = b := by
  cases a <;> cases b <;> first | rfl | exact absurd h (by decide)

inductive Operator where
  | or
  | and
  | equal
  | unequal
  | less
  | greater
  | atMost
  | atLeast
  | plus
  | minus
  | div
  | mod
  | times
  | union
  deriving DecidableEq

namespace Operator

def all : List Operator :=
  [or, and, equal, unequal, less, greater, atMost, atLeast, plus, minus, div, mod, times, union]

def level : Operator → Level
  | or => .or
  | and => .and
  | equal | unequal => .equality
  | less | greater | atMost | atLeast => .relational
  | plus | minus => .additive
  | div | mod | times => .multiplicative
  | union => .union

def spelling : Operator → String
  | or => "or"
  | and => "and"
  | equal => "="
  | unequal => "!="
  | less => "<"
  | greater => ">"
  | atMost => "<="
  | atLeast => ">="
  | plus => "+"
  | minus => "-"
  | div => "div"
  | mod => "mod"
  | times => "*"
  | union => "|"

def tag : Operator → String
  | or => "or"
  | and => "and"
  | equal => "eq"
  | unequal => "neq"
  | less => "lt"
  | greater => "gt"
  | atMost => "lte"
  | atLeast => "gte"
  | plus => "add"
  | minus => "sub"
  | div => "div"
  | mod => "mod"
  | times => "mul"
  | union => "pipe"

def ofTag? (s : String) : Option Operator :=
  all.find? (·.tag == s)

theorem tag_injective {a b : Operator} (h : a.tag = b.tag) : a = b := by
  cases a <;> cases b <;> first | rfl | exact absurd h (by decide)

theorem ofTag?_eq_some_iff {s : String} {op : Operator} : ofTag? s = some op ↔ op.tag = s := by
  constructor
  · intro h
    simpa using List.find?_some h
  · intro h
    subst h
    cases op <;> decide

end Operator
end XPathSyntax
