import XPathSyntax.Proofs.Lexeme.Standing
import XPathSyntax.Tree.Tokens

/-! Legible tokens. The tokens of a text carry texts of their own kinds, and some of them can come
only behind an operand or only elsewhere, or only if no pair of parentheses follows. This is all
that can be said of them: legible tokens are those that a text can be written for. -/

namespace XPathSyntax

/-- The operators that are read as names where no operand has ended. -/
def Operator.needsOperand (op : Operator) : Bool :=
  op.isWord || op == .times

namespace Token

def EmptyParens (next : List Token) : Prop :=
  ∃ o c more, next = o :: c :: more ∧ o.kind = .openParen ∧ c.kind = .closeParen

def Legible (afterOperand : Bool) (t : Token) (next : List Token) : Prop :=
  t.value.isSome = t.kind.carriesText ∧
  match t.kind with
  | .name =>
    Text.isNameOrStar t.text = true ∧ (t.text = "*" → afterOperand = false) ∧
      Lexeme.wordOperator? afterOperand t.text = none ∧
      (t.text ∈ Lexeme.nodeTypes → ¬EmptyParens next)
  | .axis => ∃ axis : Axis, t.text = axis.name
  | .nodeType => t.text ∈ Lexeme.nodeTypes
  | .literal => Text.isLiteral t.text.toList = true
  | .integer =>
    Text.isInteger t.text.toList = true ∧ (t.text.toList.head? = some '-' → afterOperand = false)
  | .decimal =>
    Text.isDecimal t.text.toList = true ∧ (t.text.toList.head? = some '-' → afterOperand = false)
  | .reference => Text.isReference t.text.toList = true
  | .operator op => op.needsOperand = true → afterOperand = true
  | .endOfInput => False
  | .colon | .comma | .openBracket | .closeBracket | .openParen | .closeParen | .slash => True

def AllLegible : Bool → List Token → Prop
  | _, [] => True
  | afterOperand, t :: ts => t.Legible afterOperand ts ∧ AllLegible t.kind.endsOperand ts

variable {afterOperand : Bool} {t : Token} {ts us : List Token}

theorem EmptyParens.append (h : EmptyParens ts) (us : List Token) : EmptyParens (ts ++ us) := by
  obtain ⟨o, c, more, rfl, ho, hc⟩ := h
  exact ⟨o, c, more ++ us, rfl, ho, hc⟩

theorem Legible.of_append (h : t.Legible afterOperand (ts ++ us)) : t.Legible afterOperand ts := by
  refine ⟨h.1, ?_⟩
  have h := h.2
  split at h
  next =>
    obtain ⟨hname, hstar, hop, hparens⟩ := h
    exact ⟨hname, hstar, hop, fun hmem he => hparens hmem (he.append us)⟩
  all_goals exact h

/-- The tokens can be read one after another, wherever the first of them stands. -/
def Excerpt (ts : List Token) : Prop :=
  ∃ afterOperand, AllLegible afterOperand ts

theorem AllLegible.left (h : AllLegible afterOperand (ts ++ us)) : AllLegible afterOperand ts := by
  induction ts generalizing afterOperand with
  | nil => trivial
  | cons t ts ih => exact ⟨h.1.of_append, ih h.2⟩

theorem AllLegible.right (h : AllLegible afterOperand (ts ++ us)) : Excerpt us := by
  induction ts generalizing afterOperand with
  | nil => exact ⟨afterOperand, h⟩
  | cons t ts ih => exact ih h.2

theorem Excerpt.left (h : Excerpt (ts ++ us)) : Excerpt ts := by
  obtain ⟨afterOperand, h⟩ := h
  exact ⟨afterOperand, h.left⟩

theorem Excerpt.right (h : Excerpt (ts ++ us)) : Excerpt us := by
  obtain ⟨afterOperand, h⟩ := h
  exact h.right

theorem Excerpt.head (h : Excerpt (t :: ts)) : ∃ afterOperand, t.Legible afterOperand ts := by
  obtain ⟨afterOperand, h, -⟩ := h
  exact ⟨afterOperand, h⟩

theorem Excerpt.tail (h : Excerpt (t :: ts)) : Excerpt ts := by
  obtain ⟨afterOperand, -, h⟩ := h
  exact ⟨_, h⟩

theorem AllLegible.kind_ne_endOfInput (h : AllLegible afterOperand ts) :
    ∀ t ∈ ts, t.kind ≠ .endOfInput := by
  induction ts generalizing afterOperand with
  | nil => simp
  | cons t ts ih =>
    intro u hu hk
    rcases List.mem_cons.1 hu with rfl | hu
    · have := h.1.2
      rw [hk] at this
      exact this
    · exact ih h.2 u hu hk

end Token

end XPathSyntax
