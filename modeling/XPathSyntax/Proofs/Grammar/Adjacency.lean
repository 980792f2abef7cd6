import Mathlib.Data.List.Chain
import XPathSyntax.Proofs.Grammar.Lookahead

/-! Which tokens can stand side by side. In every expression an operator stands behind the end of an
operand or behind a slash, and no name and no number stands directly behind the end of an operand.
A slash alone is an operand too, although its kind does not say so. -/

namespace XPathSyntax.Grammar

def canEnd (kind : Token.Kind) : Prop :=
  kind.endsOperand = true ∨ kind = .slash

/-- What an expression says of two tokens side by side. -/
structure Adjoins (p x : Token) : Prop where
  operand : p.kind.endsOperand = true →
    x.kind ≠ .name ∧ x.kind ≠ .integer ∧ x.kind ≠ .decimal
  operator : ∀ op, x.kind = .operator op → canEnd p.kind

/-- The marks of the grammar that are neither operators nor the beginnings of operands. -/
def isMark : Token.Kind → Bool
  | .colon | .comma | .openBracket | .closeBracket | .openParen | .closeParen | .slash => true
  | _ => false

variable {form : Form} {mark : Token.Kind} {ts us : List Token} {t : Tree} {trees : List Tree}
  {p x : Token} {n : Nat}

theorem adjoins_mark (p : Token) (hx : isMark x.kind = true) : Adjoins p x where
  operand _ := by
    refine ⟨?_, ?_, ?_⟩ <;> intro h <;> rw [h] at hx <;> cases hx
  operator op h := by
    rw [h] at hx
    cases hx

theorem adjoins_operator {op : Operator} (hp : canEnd p.kind) (hx : x.kind = .operator op) :
    Adjoins p x where
  operand _ := by simp [hx]
  operator _ _ := hp

/-- What begins a form can stand behind everything that ends no operand. -/
theorem adjoins_of_begins (hp : p.kind.endsOperand = false) (hx : begins form x.kind = true) :
    Adjoins p x where
  operand h := by
    rw [hp] at h
    cases h
  operator op h := by
    rw [h] at hx
    cases form <;> cases hx

/-- Tokens that stand side by side as those of an expression do, up to a token with which an
expression can end. -/
structure Joined (ts : List Token) : Prop where
  chain : ts.IsChain Adjoins
  ends : ∃ init x, ts = init ++ [x] ∧ canEnd x.kind

namespace Joined

theorem single (hx : canEnd x.kind) : Joined [x] :=
  ⟨.singleton x, [], x, rfl, hx⟩

theorem cons (h : Joined ts) (hp : ∀ x ∈ ts.head?, Adjoins p x) : Joined (p :: ts) := by
  obtain ⟨init, x, rfl, hx⟩ := h.ends
  exact ⟨h.chain.cons hp, p :: init, x, rfl, hx⟩

theorem append (h : Joined ts) (h' : Joined us)
    (joint : ∀ p x, canEnd p.kind → us.head? = some x → Adjoins p x) : Joined (ts ++ us) := by
  obtain ⟨init, p, rfl, hp⟩ := h.ends
  obtain ⟨init', x, hus, hx⟩ := h'.ends
  refine ⟨h.chain.append h'.chain ?_, init ++ [p] ++ init', x, by simp [hus], hx⟩
  intro q hq y hy
  obtain rfl : p = q := by simpa using hq
  exact joint p y hp hy

/-- A mark behind the tokens. -/
theorem closed (h : Joined ts) (hx : isMark x.kind = true) (hend : canEnd x.kind) :
    Joined (ts ++ [x]) := by
  refine h.append (.single hend) fun p y _ hy => ?_
  cases hy
  exact adjoins_mark p hx

theorem cons_mark (h : Joined (x :: us)) (hx : isMark x.kind = true) : Joined (p :: x :: us) := by
  refine h.cons fun y hy => ?_
  cases hy
  exact adjoins_mark p hx

/-- A mark with what follows it, behind the tokens. -/
theorem append_mark (h : Joined ts) (h' : Joined (x :: us)) (hx : isMark x.kind = true) :
    Joined (ts ++ x :: us) := by
  refine h.append h' fun p y _ hy => ?_
  cases hy
  exact adjoins_mark p hx

theorem append_operator {op : Operator} (h : Joined ts) (h' : Joined (x :: us))
    (hx : x.kind = .operator op) : Joined (ts ++ x :: us) := by
  refine h.append h' fun p y hp hy => ?_
  cases hy
  exact adjoins_operator hp hx

end Joined

theorem Leaf.canEnd (h : Leaf x t) : canEnd x.kind := by
  cases h with
  | literal hx | integer hx | decimal hx | reference hx => exact .inl (by rw [hx]; rfl)

/-- A token that ends no operand, in front of a form. -/
theorem Joined.behind (h : Joined ts) (hb : ∃ x us, ts = x :: us ∧ begins form x.kind = true)
    (hp : p.kind.endsOperand = false) : Joined (p :: ts) := by
  obtain ⟨x, us, rfl, hx⟩ := hb
  refine h.cons fun y hy => ?_
  cases hy
  exact adjoins_of_begins hp hx

theorem NodeTest.joined (h : NodeTest ts t) : Joined ts := by
  cases h with
  | name hx | nodeType hx => exact .single (.inl (by rw [hx]; rfl))
  | qualified hq hc hx =>
    have last : Joined [_] := .single (.inl (by rw [hx]; rfl))
    exact (last.behind (NodeTest.name hx).begins (by rw [hc]; rfl)).cons_mark (by rw [hc]; rfl)

/-- A form between two marks, the first of which ends no operand. -/
theorem Joined.enclosed {c : Token} (h : Joined ts)
    (hb : ∃ x us, ts = x :: us ∧ begins form x.kind = true) (hp : p.kind.endsOperand = false)
    (hc : isMark c.kind = true) (hend : canEnd c.kind) : Joined (p :: (ts ++ [c])) := by
  obtain ⟨x, us, rfl, hx⟩ := hb
  exact (h.closed hc hend).behind ⟨x, us ++ [c], rfl, hx⟩ hp

mutual

theorem Derives.joined {form ts t n} : Derives form ts t n → Joined ts
  | .expression h | .single h | .lone h => h.joined
  | .chain _ _ ho h h' | .product _ ho h h' =>
    h.joined.append_operator (h'.joined.behind h'.begins (by rw [ho]; rfl)) ho
  | .leaf h => .single h.canEnd
  | .group ho hc h =>
    h.joined.enclosed h.begins (by rw [ho]; rfl) (by rw [hc]; rfl) (.inl (by rw [hc]; rfl))
  | .path h _ => h.joined (.inl rfl)
  | .root hs => .single (.inr hs)
  | .absolute hs h => (h.joined (.inl rfl)).behind h.begins (by rw [hs]; rfl)
  | .emptyCall _ ho hc =>
    ((Joined.single (.inl (by rw [hc]; rfl))).cons_mark (by rw [hc]; rfl)).cons_mark
      (by rw [ho]; rfl)
  | .call _ ho hc h =>
    ((h.joined (.inr rfl)).enclosed h.begins (by rw [ho]; rfl) (by rw [hc]; rfl)
      (.inl (by rw [hc]; rfl))).cons_mark (by rw [ho]; rfl)
  | .child h => h.joined
  | .axis ha _ h => h.joined.behind h.begins (by rw [ha]; rfl)
  | .predicate ho hc h h' =>
    h.joined.append_mark (h'.joined.enclosed h'.begins (by rw [ho]; rfl) (by rw [hc]; rfl)
      (.inl (by rw [hc]; rfl))) (by rw [ho]; rfl)

theorem DerivesAll.joined {form mark ts trees n} :
    DerivesAll form mark ts trees n → mark = .slash ∨ mark = .comma → Joined ts
  | .one h, _ => h.joined
  | .more hk h h', hm => by
    have behind := (h'.joined hm).behind h'.begins (by rcases hm with rfl | rfl <;> rw [hk] <;> rfl)
    exact h.joined.append_mark behind (by rcases hm with rfl | rfl <;> rw [hk] <;> rfl)

end

/-- Wherever two tokens of an expression stand side by side. -/
theorem Sentence.adjoins {before more : List Token} (h : Sentence (before ++ p :: x :: more)) :
    Adjoins p x := by
  obtain ⟨t, n, hd⟩ := h
  exact (List.isChain_append_cons_cons.1 hd.joined.chain).2.1

/-- No expression begins with an operator. -/
theorem Sentence.ne_operator {op : Operator} (h : Sentence (x :: ts)) : x.kind ≠ .operator op := by
  obtain ⟨t, n, hd⟩ := h
  obtain ⟨y, us, heq, hy⟩ := hd.begins
  intro hx
  rw [← (List.cons.inj heq).1, hx] at hy
  cases hy

end XPathSyntax.Grammar
