import XPathSyntax.Tree

/-! Equality of trees is decided by walking both at once. -/

namespace XPathSyntax.Tree

mutual

def same : Tree → Tree → Bool
  | binary op left right, binary op' left' right' =>
    op == op' && same left left' && same right right'
  | path steps, path steps' => sameAll steps steps'
  | absolutePath steps, absolutePath steps' => sameAll steps steps'
  | step axis test, step axis' test' => axis == axis' && same test test'
  | predicate base filter, predicate base' filter' => same base base' && same filter filter'
  | nameTest qualifier name, nameTest qualifier' name' => qualifier == qualifier' && name == name'
  | nodeType name, nodeType name' => name == name'
  | call name arguments, call name' arguments' => name == name' && sameAll arguments arguments'
  | literal text, literal text' => text == text'
  | integer text, integer text' => text == text'
  | decimal text, decimal text' => text == text'
  | reference name, reference name' => name == name'
  | _, _ => false

def sameAll : List Tree → List Tree → Bool
  | [], [] => true
  | t :: ts, t' :: ts' => same t t' && sameAll ts ts'
  | _, _ => false

end

theorem sameAll_iff {ts us : List Tree} (h : ∀ t ∈ ts, ∀ u, same t u = true ↔ t = u) :
    sameAll ts us = true ↔ ts = us := by
  induction ts generalizing us with
  | nil => cases us <;> simp [sameAll]
  | cons t ts ih =>
    cases us with
    | nil => simp [sameAll]
    | cons u us =>
      simp only [sameAll, Bool.and_eq_true, List.cons.injEq]
      rw [h t (by simp), ih fun t ht => h t (by simp [ht])]

theorem same_iff (t u : Tree) : same t u = true ↔ t = u := by
  induction t using induction_on generalizing u with
  | h t ih =>
    cases t <;> cases u <;>
      first
      | exact iff_of_false Bool.false_ne_true (fun h => by cases h)
      | simp_all [same, children, sameAll_iff, and_assoc]

instance : DecidableEq Tree := fun t u => decidable_of_iff _ (same_iff t u)

end XPathSyntax.Tree
