import XPathSyntax.Grammar
import XPathSyntax.Parser.Expression

/-! Derivations and the parsers of their forms: one parser for every form of the grammar, and the
derivations from which the others are put together. -/

namespace XPathSyntax

namespace Grammar

variable {form : Form} {mark : Token.Kind} {ts us : List Token} {t u : Tree} {trees : List Tree}
  {m n : Nat}

theorem NodeTest.height (h : NodeTest ts t) : t.height = 1 := by
  cases h <;> rfl

theorem NodeTest.kind_ne_endOfInput (h : NodeTest ts t) : ∀ x ∈ ts, x.kind ≠ .endOfInput := by
  cases h <;> simp_all

theorem Leaf.kind_ne_endOfInput {x : Token} (h : Leaf x t) : x.kind ≠ .endOfInput := by
  cases h <;> simp_all

theorem Derives.level_of_member (h : Derives .member ts t n) (l : Level) :
    Derives (.level l) ts t n := by
  have union : Derives (.level .union) ts t n := .single h
  have multiplicative : Derives (.level .multiplicative) ts t n := .single union
  have additive : Derives (.level .additive) ts t n := .single multiplicative
  have relational : Derives (.level .relational) ts t n := .single additive
  have equality : Derives (.level .equality) ts t n := .single relational
  have and : Derives (.level .and) ts t n := .single equality
  cases l with
  | or => exact .single and
  | and => exact and
  | equality => exact equality
  | relational => exact relational
  | additive => exact additive
  | multiplicative => exact multiplicative
  | union => exact union

theorem Derives.operand_of_member (h : Derives .member ts t n) (l : Level) :
    Derives (operand l) ts t n := by
  cases l with
  | union => exact h
  | _ => exact h.level_of_member _

theorem Derives.expression_of_member (h : Derives .member ts t n) :
    Derives .expression ts t (n + 1) :=
  .expression (h.level_of_member .or)

/-- What stands on a level is an expression. -/
theorem Derives.expression_of_level {l : Level} (h : Derives (.level l) ts t n) :
    Derives .expression ts t (n + 1) := by
  refine .expression ?_
  cases l with
  | or => exact h
  | and => exact .single h
  | equality => exact .single (.single h)
  | relational => exact .single (.single (.single h))
  | additive => exact .single (.single (.single (.single h)))
  | multiplicative => exact .single (.single (.single (.single (.single h))))
  | union => exact .single (.single (.single (.single (.single (.single h)))))

/-- An operator of any level can stand between two members. -/
theorem Derives.expression_binary {op : Operator} {o : Token} (ho : o.kind = .operator op)
    (h : Derives .member ts t m) (h' : Derives .member us u n) :
    ∃ k, Derives .expression (ts ++ o :: us) (.binary op t u) (k + 1) ∧ k ≤ max m (n + 1) := by
  by_cases hlevel : op.level = .multiplicative
  · have product := Derives.product hlevel ho (h.level_of_member _) (h'.level_of_member _)
    exact ⟨_, product.expression_of_level, Nat.le_refl _⟩
  · have chain := Derives.chain hlevel rfl ho (h.level_of_member _) (h'.operand_of_member _)
    exact ⟨_, chain.expression_of_level, by omega⟩

/-- A step can stand for every form. -/
theorem Derives.of_step (h : Derives .step ts t n) (form : Form) : ∃ m, Derives form ts t m := by
  cases form with
  | expression => exact ⟨_, (Derives.lone h).expression_of_member⟩
  | level l => exact ⟨_, (Derives.lone h).level_of_member l⟩
  | member => exact ⟨_, .lone h⟩
  | step => exact ⟨_, h⟩

theorem DerivesAll.snoc {k : Token} (h : DerivesAll form mark ts trees m) (hk : k.kind = mark)
    (hu : Derives form us u n) :
    DerivesAll form mark (ts ++ k :: us) (trees ++ [u]) (max m n) := by
  induction trees generalizing ts m with
  | nil => cases h
  | cons t trees ih =>
    cases h with
    | one ht => exact .more hk ht (.one hu)
    | @more _ _ k' ts' us' _ _ m' n' hk' ht hts =>
      have := DerivesAll.more hk' ht (ih hts)
      simpa only [List.append_assoc, List.cons_append, Nat.max_assoc] using this

mutual

theorem Derives.kind_ne_endOfInput {form ts t n} :
    Derives form ts t n → ∀ x ∈ ts, x.kind ≠ .endOfInput
  | .expression h | .single h | .lone h => h.kind_ne_endOfInput
  | .chain _ _ ho h h' | .product _ ho h h' => by
    have := h.kind_ne_endOfInput
    have := h'.kind_ne_endOfInput
    grind
  | .leaf h => by simpa using h.kind_ne_endOfInput
  | .group ho hc h => by
    have := h.kind_ne_endOfInput
    grind
  | .path h _ => h.kind_ne_endOfInput (by decide)
  | .root hs => by simp [hs]
  | .absolute hs h => by
    have := h.kind_ne_endOfInput
    grind
  | .emptyCall hf ho hc => by simp [hf, ho, hc]
  | .call hf ho hc h => by
    have := h.kind_ne_endOfInput (by decide)
    grind
  | .child h => h.kind_ne_endOfInput
  | .axis ha _ h => by
    have := h.kind_ne_endOfInput
    grind
  | .predicate ho hc h h' => by
    have := h.kind_ne_endOfInput
    have := h'.kind_ne_endOfInput
    grind

theorem DerivesAll.kind_ne_endOfInput {form mark ts trees n} :
    DerivesAll form mark ts trees n → mark ≠ .endOfInput → ∀ x ∈ ts, x.kind ≠ .endOfInput
  | .one h, _ => h.kind_ne_endOfInput
  | .more hk h h', hm => by
    have := h.kind_ne_endOfInput
    have := h'.kind_ne_endOfInput hm
    grind

end

end Grammar

namespace Parser

open Grammar (Form)

def Entry.form : Entry → Form
  | .expression => .expression
  | .product => .level .multiplicative

variable (limits : Limits) (inside : Entry → Parser Subtree)

def ofForm : Form → Parser Subtree
  | .expression => inside .expression
  | .level .union => chain limits .union (member limits (inside .expression))
  | .level .multiplicative => product limits inside
  | .level l => (looseLevels.dropWhile (· ≠ l)).foldr (chain limits) (product limits inside)
  | .member => member limits (inside .expression)
  | .step => step limits (inside .expression)

theorem ofForm_level {l : Level} (hl : l ≠ .multiplicative) :
    ofForm limits inside (.level l) =
      chain limits l (ofForm limits inside (Grammar.operand l)) := by
  cases l <;> first | rfl | exact absurd rfl hl

end Parser
end XPathSyntax
