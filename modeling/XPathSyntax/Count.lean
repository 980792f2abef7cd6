/-! Lines, heights and limits are counts of 32 bits. A count that would pass the largest one
stays there. -/

namespace XPathSyntax.Count

def top : Nat := 0xFFFFFFFF

def add (a b : Nat) : Nat := min (a + b) top

theorem add_eq {a b : Nat} (h : a + b ≤ top) : add a b = a + b :=
  Nat.min_eq_left h

/-- Passing the top in two moves ends where one move ends. -/
theorem add_add (a b c : Nat) : add (add a b) c = add a (b + c) := by
  unfold add
  omega

end XPathSyntax.Count
