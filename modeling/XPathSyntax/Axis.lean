/-! The thirteen axes of a location step. A name determines its axis and an axis its name, so
nothing is lost when an axis travels as text. -/

namespace XPathSyntax

inductive Axis where
  | child
  | descendant
  | parent
  | ancestor
  | followingSibling
  | precedingSibling
  | following
  | preceding
  | attributes
  | namespaces
  | self
  | descendantOrSelf
  | ancestorOrSelf
  deriving DecidableEq

namespace Axis

def all : List Axis :=
  [child, descendant, parent, ancestor, followingSibling, precedingSibling, following, preceding,
    attributes, namespaces, self, descendantOrSelf, ancestorOrSelf]

def name : Axis → String
  | child => "child"
  | descendant => "descendant"
  | parent => "parent"
  | ancestor => "ancestor"
  | followingSibling => "following-sibling"
  | precedingSibling => "preceding-sibling"
  | following => "following"
  | preceding => "preceding"
  | attributes => "attribute"
  | namespaces => "namespace"
  | self => "self"
  | descendantOrSelf => "descendant-or-self"
  | ancestorOrSelf => "ancestor-or-self"

/-- The axis of a name; names are compared exactly. -/
def ofName? (s : String) : Option Axis :=
  all.find? (·.name == s)

theorem name_injective {a b : Axis} (h : a.name = b.name) : a = b := by
  cases a <;> cases b <;> first | rfl | exact absurd h (by decide)

theorem ofName?_eq_some_iff {s : String} {a : Axis} : ofName? s = some a ↔ a.name = s := by
  constructor
  · intro h
    simpa using List.find?_some h
  · intro h
    subst h
    cases a <;> decide

theorem ofName?_name (a : Axis) : ofName? a.name = some a :=
  ofName?_eq_some_iff.2 rfl

end Axis
end XPathSyntax
