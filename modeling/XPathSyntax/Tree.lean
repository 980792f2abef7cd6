import XPathSyntax.Axis
import XPathSyntax.Operator

/-! Syntax trees of expressions. Every constructor carries exactly what its form needs, and any
tree may stand in any place: which trees an expression can denote is a matter of the grammar, not
of the type. Literals keep their text as it was written. -/

namespace XPathSyntax

inductive Tree where
  | binary (op : Operator) (left right : Tree)
  /-- Steps in a row, from the context node. -/
  | path (steps : List Tree)
  /-- Steps in a row, from the root of the document; no step at all is the root itself. -/
  | absolutePath (steps : List Tree)
  | step (axis : Axis) (test : Tree)
  | predicate (base filter : Tree)
  | nameTest (qualifier : Option String) (name : String)
  | nodeType (name : String)
  | call (name : String) (arguments : List Tree)
  | literal (text : String)
  | integer (text : String)
  | decimal (text : String)
  | reference (name : String)

namespace Tree

def tag : Tree → String
  | binary op _ _ => op.tag
  | path _ => "path"
  | absolutePath _ => "absolute_path"
  | step _ _ => "axis"
  | predicate _ _ => "predicate"
  | nameTest _ _ => "test"
  | nodeType _ => "type_test"
  | call _ _ => "call"
  | literal _ => "string"
  | integer _ => "int"
  | decimal _ => "float"
  | reference _ => "var"

def children : Tree → List Tree
  | binary _ left right => [left, right]
  | path steps | absolutePath steps => steps
  | step _ test => [test]
  | predicate base filter => [base, filter]
  | call _ arguments => arguments
  | nameTest _ _ | nodeType _ | literal _ | integer _ | decimal _ | reference _ => []

mutual

def height : Tree → Nat
  | binary _ left right => max left.height right.height + 1
  | path steps | absolutePath steps => tallest steps + 1
  | step _ test => test.height + 1
  | predicate base filter => max base.height filter.height + 1
  | call _ arguments => tallest arguments + 1
  | nameTest _ _ | nodeType _ | literal _ | integer _ | decimal _ | reference _ => 1

def tallest : List Tree → Nat
  | [] => 0
  | t :: ts => max t.height (tallest ts)

end

theorem induction_on {motive : Tree → Prop}
    (h : ∀ t : Tree, (∀ s ∈ t.children, motive s) → motive t) (t : Tree) : motive t := by
  have leaf {t : Tree} (ht : t.children = []) : motive t := h t (by simp [ht])
  refine Tree.rec (motive_1 := motive) (motive_2 := fun ts => ∀ t ∈ ts, motive t)
    ?_ ?_ ?_ ?_ ?_ ?_ ?_ ?_ ?_ ?_ ?_ ?_ ?_ ?_ t
  · intro op left right hl hr
    exact h _ (by simpa [children] using ⟨hl, hr⟩)
  · intro steps hs
    exact h _ (by simpa [children] using hs)
  · intro steps hs
    exact h _ (by simpa [children] using hs)
  · intro axis test ht
    exact h _ (by simpa [children] using ht)
  · intro base filter hs hf
    exact h _ (by simpa [children] using ⟨hs, hf⟩)
  · intro qualifier name
    exact leaf rfl
  · intro name
    exact leaf rfl
  · intro name arguments ha
    exact h _ (by simpa [children] using ha)
  · intro text
    exact leaf rfl
  · intro text
    exact leaf rfl
  · intro text
    exact leaf rfl
  · intro name
    exact leaf rfl
  · simp
  · intro t ts ht hts
    simpa using ⟨ht, hts⟩

theorem height_eq (t : Tree) : t.height = tallest t.children + 1 := by
  cases t <;> simp [height, children, tallest]

theorem height_pos (t : Tree) : 0 < t.height := by
  simp [height_eq]

end Tree
end XPathSyntax
