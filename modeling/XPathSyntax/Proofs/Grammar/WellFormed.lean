import XPathSyntax.Grammar
import XPathSyntax.Proofs.Token.Legible

/-! Legible tokens derive well-formed trees. The texts of the tree are texts of tokens, and a name
that is called with no arguments is no node type, for its tokens would have been read as a test. -/

namespace XPathSyntax

open Token (Excerpt)

namespace Grammar

def Form.role : Form → Tree.Role
  | .step => .step
  | .expression | .level _ | .member => .expression

theorem role_operand (l : Level) : (operand l).role = .expression := by
  cases l <;> rfl

variable {form : Form} {mark : Token.Kind} {ts us : List Token} {x o c : Token} {t u : Tree}
  {trees : List Tree} {n : Nat}

theorem isNameOrStar_of_excerpt (h : Excerpt (x :: ts)) (hk : x.kind = .name) :
    Text.isNameOrStar x.text = true := by
  obtain ⟨afterOperand, -, h⟩ := h.head
  rw [hk] at h
  exact h.1

theorem mem_nodeTypes_of_excerpt (h : Excerpt (x :: ts)) (hk : x.kind = .nodeType) :
    x.text ∈ Lexeme.nodeTypes := by
  obtain ⟨afterOperand, -, h⟩ := h.head
  rwa [hk] at h

/-- A name in front of empty parentheses is not that of a node type. -/
theorem not_mem_nodeTypes_of_excerpt (h : Excerpt (x :: o :: c :: ts)) (hx : x.kind = .name)
    (ho : o.kind = .openParen) (hc : c.kind = .closeParen) : x.text ∉ Lexeme.nodeTypes := by
  obtain ⟨afterOperand, -, h⟩ := h.head
  rw [hx] at h
  intro hmem
  exact h.2.2.2 hmem ⟨o, c, ts, rfl, ho, hc⟩

theorem NodeTest.isNodeTest (h : NodeTest ts t) (hts : Excerpt ts) : t.isNodeTest = true := by
  cases h with
  | name hx => simpa [Tree.isNodeTest] using isNameOrStar_of_excerpt hts hx
  | qualified hq hc hx =>
    have qualifier := isNameOrStar_of_excerpt hts hq
    have name := isNameOrStar_of_excerpt hts.tail.tail hx
    simp [Tree.isNodeTest, qualifier, name]
  | nodeType hx => simpa [Tree.isNodeTest] using mem_nodeTypes_of_excerpt hts hx

theorem Leaf.wellFormed (h : Leaf x t) (hts : Excerpt [x]) : t.wellFormed .expression = true := by
  obtain ⟨afterOperand, -, hx⟩ := hts.head
  cases h with
  | literal hk =>
    rw [hk] at hx
    simpa [Tree.wellFormed] using hx
  | integer hk =>
    rw [hk] at hx
    simpa [Tree.wellFormed] using hx.1
  | decimal hk =>
    rw [hk] at hx
    simpa [Tree.wellFormed] using hx.1
  | reference hk =>
    rw [hk] at hx
    simpa [Tree.wellFormed] using hx

mutual

theorem Derives.wellFormed {form ts t n} :
    Derives form ts t n → Excerpt ts → t.wellFormed form.role = true
  | .expression h, hts => h.wellFormed hts
  | .single h, hts => by
    have operand := h.wellFormed hts
    rwa [role_operand] at operand
  | .chain _ _ _ h h', hts => by
    have left := h.wellFormed hts.left
    have right := h'.wellFormed hts.right.tail
    rw [role_operand] at right
    simpa [Tree.wellFormed, Form.role] using ⟨left, right⟩
  | .product _ _ h h', hts => by
    simpa [Tree.wellFormed, Form.role] using ⟨h.wellFormed hts.left, h'.wellFormed hts.right.tail⟩
  | .leaf h, hts => h.wellFormed hts
  | .group _ _ h, hts => h.wellFormed hts.tail.left
  | .lone h, hts => Tree.wellFormed_expression (h.wellFormed hts)
  | .path h hlen, hts => by
    simpa [Tree.wellFormed, Form.role] using ⟨hlen, h.allWellFormed hts⟩
  | .root _, _ => rfl
  | .absolute _ h, hts => by
    simpa [Tree.wellFormed, Form.role] using h.allWellFormed hts.tail
  | .emptyCall hf ho hc, hts => by
    have name := isNameOrStar_of_excerpt hts hf
    have call := not_mem_nodeTypes_of_excerpt hts hf ho hc
    simp [Tree.wellFormed, Tree.allWellFormed, name, call]
  | .call hf _ _ h, hts => by
    have name := isNameOrStar_of_excerpt hts hf
    have arguments := h.allWellFormed hts.tail.tail.left
    have nonempty := h.trees_ne_nil
    simpa [Tree.wellFormed, name, nonempty, Form.role] using arguments
  | .child h, hts => h.isNodeTest hts
  | .axis _ _ h, hts => h.isNodeTest hts.tail
  | .predicate _ _ h h', hts => by
    simpa [Tree.wellFormed, Form.role] using
      ⟨h.wellFormed hts.left, h'.wellFormed hts.right.tail.left⟩

theorem DerivesAll.allWellFormed {form mark ts trees n} :
    DerivesAll form mark ts trees n → Excerpt ts → Tree.allWellFormed form.role trees = true
  | .one h, hts => by simpa [Tree.allWellFormed] using h.wellFormed hts
  | .more _ h h', hts => by
    simpa [Tree.allWellFormed] using ⟨h.wellFormed hts.left, h'.allWellFormed hts.right.tail⟩

end

end Grammar
end XPathSyntax
