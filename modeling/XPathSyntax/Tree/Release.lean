import XPathSyntax.Tree

/-! Giving up a tree without recursion. A list of trees holds what is still to be given up; the
latest is taken, the children that have children of their own are moved to the list, and what is
left of it goes together with children that are leaves. -/

namespace XPathSyntax.Tree

mutual

def size : Tree → Nat
  | binary _ left right => left.size + right.size + 1
  | path steps | absolutePath steps => sizes steps + 1
  | step _ test => test.size + 1
  | predicate base filter => base.size + filter.size + 1
  | call _ arguments => sizes arguments + 1
  | nameTest _ _ | nodeType _ | literal _ | integer _ | decimal _ | reference _ => 1

def sizes : List Tree → Nat
  | [] => 0
  | t :: ts => t.size + sizes ts

end

def hasChildren (t : Tree) : Bool :=
  !t.children.isEmpty

def placeholder : Tree := integer ""

def kept (t : Tree) : Tree :=
  if t.hasChildren then placeholder else t

def moved (t : Tree) : List Tree :=
  if t.hasChildren then [t] else []

/-- What is left of a tree, and the children that are moved out of it, in order. Lists of children
are moved as a whole. -/
def detach : Tree → Tree × List Tree
  | binary op left right => (binary op left.kept right.kept, left.moved ++ right.moved)
  | predicate base filter => (predicate base.kept filter.kept, base.moved ++ filter.moved)
  | step axis test => (step axis test.kept, test.moved)
  | path steps => (path [], steps)
  | absolutePath steps => (absolutePath [], steps)
  | call name arguments => (call name [], arguments)
  | t => (t, [])

theorem sizes_append (ts us : List Tree) : sizes (ts ++ us) = sizes ts + sizes us := by
  induction ts with
  | nil => simp [sizes]
  | cons t ts ih => simp [sizes, ih, Nat.add_assoc]

theorem sizes_reverse (ts : List Tree) : sizes ts.reverse = sizes ts := by
  induction ts with
  | nil => rfl
  | cons t ts ih => simp [sizes, sizes_append, ih, Nat.add_comm]

theorem sizes_moved_le (t : Tree) : sizes t.moved ≤ t.size := by
  unfold moved
  split <;> simp [sizes]

theorem sizes_detach_lt (t : Tree) : sizes t.detach.2 < t.size := by
  cases t with
  | binary op left right =>
    have := sizes_moved_le left
    have := sizes_moved_le right
    simp only [detach, size, sizes_append]
    omega
  | predicate base filter =>
    have := sizes_moved_le base
    have := sizes_moved_le filter
    simp only [detach, size, sizes_append]
    omega
  | step axis test =>
    have := sizes_moved_le test
    simp only [detach, size]
    omega
  | _ => simp [detach, size, sizes]

/-- What is left of each tree as it is given up, in that order. The latest tree stands first. -/
def releaseAll : List Tree → List Tree
  | [] => []
  | t :: pending => t.detach.1 :: releaseAll (t.detach.2.reverse ++ pending)
termination_by pending => sizes pending
decreasing_by
  have := sizes_detach_lt t
  simp only [sizes_append, sizes_reverse, sizes]
  omega

def release (t : Tree) : List Tree :=
  releaseAll [t]

end XPathSyntax.Tree
