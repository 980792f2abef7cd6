import XPathSyntax.Axis
import XPathSyntax.Token
import XPathSyntax.Tree

/-! The grammar of expressions as a relation between token lists and trees. It says nothing of how
a tree is found, nor of limits; beside the tree it keeps the nesting that a derivation needs, which
is one for every expression and for every right side of a product that is open at once. Missing
texts count as empty, and lines play no part. -/

namespace XPathSyntax.Grammar

inductive Form where
  | expression
  | level (l : Level)
  | member
  | step
  deriving DecidableEq

/-- What stands between the operators of a level. -/
def operand : Level → Form
  | .or => .level .and
  | .and => .level .equality
  | .equality => .level .relational
  | .relational => .level .additive
  | .additive => .level .multiplicative
  | .multiplicative => .level .union
  | .union => .member

inductive NodeTest : List Token → Tree → Prop where
  | name {x : Token} : x.kind = .name → NodeTest [x] (.nameTest none x.text)
  | qualified {q c x : Token} : q.kind = .name → c.kind = .colon → x.kind = .name →
      NodeTest [q, c, x] (.nameTest (some q.text) x.text)
  | nodeType {x : Token} : x.kind = .nodeType → NodeTest [x] (.nodeType x.text)

/-- The trees of the tokens that are operands by themselves. -/
inductive Leaf : Token → Tree → Prop where
  | literal {x : Token} : x.kind = .literal → Leaf x (.literal x.text)
  | integer {x : Token} : x.kind = .integer → Leaf x (.integer x.text)
  | decimal {x : Token} : x.kind = .decimal → Leaf x (.decimal x.text)
  | reference {x : Token} : x.kind = .reference → Leaf x (.reference x.text)

mutual

/-- `Derives form ts t n`: the tokens `ts` are a `form` with the tree `t`, and need a nesting of
`n`. -/
inductive Derives : Form → List Token → Tree → Nat → Prop where
  | expression {ts t n} : Derives (.level .or) ts t n → Derives .expression ts t (n + 1)
  | single {l ts t n} : Derives (operand l) ts t n → Derives (.level l) ts t n
  | chain {l op o ts us t u m n} : l ≠ .multiplicative → op.level = l → o.kind = .operator op →
      Derives (.level l) ts t m → Derives (operand l) us u n →
      Derives (.level l) (ts ++ o :: us) (.binary op t u) (max m n)
  | product {op o ts us t u m n} : op.level = .multiplicative → o.kind = .operator op →
      Derives (.level .union) ts t m → Derives (.level .multiplicative) us u n →
      Derives (.level .multiplicative) (ts ++ o :: us) (.binary op t u) (max m (n + 1))
  | leaf {x t} : Leaf x t → Derives .member [x] t 0
  | group {o c ts t n} : o.kind = .openParen → c.kind = .closeParen →
      Derives .expression ts t n → Derives .member (o :: (ts ++ [c])) t n
  | lone {ts t n} : Derives .step ts t n → Derives .member ts t n
  | path {ts steps n} : DerivesAll .step .slash ts steps n → 2 ≤ steps.length →
      Derives .member ts (.path steps) n
  | root {s} : s.kind = .slash → Derives .member [s] (.absolutePath []) 0
  | absolute {s ts steps n} : s.kind = .slash → DerivesAll .step .slash ts steps n →
      Derives .member (s :: ts) (.absolutePath steps) n
  | emptyCall {f o c} : f.kind = .name → o.kind = .openParen → c.kind = .closeParen →
      Derives .step [f, o, c] (.call f.text []) 0
  | call {f o c ts arguments n} : f.kind = .name → o.kind = .openParen → c.kind = .closeParen →
      DerivesAll .expression .comma ts arguments n →
      Derives .step (f :: o :: (ts ++ [c])) (.call f.text arguments) n
  | child {ts t} : NodeTest ts t → Derives .step ts (.step .child t) 0
  | axis {a ts axis t} : a.kind = .axis → Axis.ofName? a.text = some axis → NodeTest ts t →
      Derives .step (a :: ts) (.step axis t) 0
  | predicate {o c ts us t u m n} : o.kind = .openBracket → c.kind = .closeBracket →
      Derives .step ts t m → Derives .expression us u n →
      Derives .step (ts ++ o :: (us ++ [c])) (.predicate t u) (max m n)

/-- One `form` or more, with a token of the kind `mark` between any two. -/
inductive DerivesAll : Form → Token.Kind → List Token → List Tree → Nat → Prop where
  | one {form mark ts t n} : Derives form ts t n → DerivesAll form mark ts [t] n
  | more {form mark k ts us t trees m n} : k.kind = mark → Derives form ts t m →
      DerivesAll form mark us trees n →
      DerivesAll form mark (ts ++ k :: us) (t :: trees) (max m n)

end

theorem DerivesAll.trees_ne_nil {form : Form} {mark : Token.Kind} {ts : List Token}
    {trees : List Tree} {n : Nat} (h : DerivesAll form mark ts trees n) : trees ≠ [] := by
  cases h <;> exact List.cons_ne_nil _ _

def Sentence (ts : List Token) : Prop :=
  ∃ t n, Derives .expression ts t n

def Viable (ts : List Token) : Prop :=
  ∃ more, Sentence (ts ++ more)

theorem viable_of_append {ts more : List Token} (h : Viable (ts ++ more)) : Viable ts := by
  obtain ⟨tail, ht⟩ := h
  exact ⟨more ++ tail, by simpa using ht⟩

end XPathSyntax.Grammar
