import XPathSyntax.Proofs.Grammar.Acceptance

/-! Precedence and grouping. Read from left to right, a tree is a row of operands and operators. Of
all trees with the same row, one has every operator where its level puts it: no operand of an
operator binds more loosely than the operator, and among operators of one level the product groups
to the right and every other level to the left. Operands of one token with operators between them
are parsed to that tree. -/

namespace XPathSyntax

open Grammar (Derives Leaf)

namespace Operator

/-- Whether an operand of `op` can have the operator `below` at its root, where `same` says whether
operators of the level of `op` can stand there. -/
def admits (same : Bool) (op below : Operator) : Bool :=
  op.level.rank < below.level.rank || op.level = below.level && same

def admitsLeft (op below : Operator) : Bool :=
  admits (op.level ≠ .multiplicative) op below

def admitsRight (op below : Operator) : Bool :=
  admits (op.level = .multiplicative) op below

variable {same : Bool} {op below : Operator}

theorem admits_iff : admits same op below = true ↔
    op.level.rank < below.level.rank ∨ op.level = below.level ∧ same = true := by
  simp [admits]

theorem rank_le_of_admits (h : admits same op below = true) :
    op.level.rank ≤ below.level.rank := by
  rcases admits_iff.1 h with hlt | ⟨heq, -⟩
  · exact Nat.le_of_lt hlt
  · exact Nat.le_of_eq (congrArg Level.rank heq)

theorem rank_lt_of_admits (h : admits same op below = true) (hsame : same = false) :
    op.level.rank < below.level.rank := by
  rcases admits_iff.1 h with hlt | ⟨-, htrue⟩
  · exact hlt
  · rw [hsame] at htrue
    cases htrue

end Operator

inductive Piece where
  | operand (t : Tree)
  | operator (op : Operator)

namespace Tree

/-- The row of operands and operators. Every tree that is not binary is an operand. -/
def pieces : Tree → List Piece
  | binary op left right => left.pieces ++ .operator op :: right.pieces
  | t => [.operand t]

def root? : Tree → Option Operator
  | binary op _ _ => some op
  | _ => none

/-- Every operator stands where its level puts it. -/
def Arranged : Tree → Prop
  | binary op left right =>
    (∀ below ∈ left.root?, op.admitsLeft below = true) ∧
    (∀ below ∈ right.root?, op.admitsRight below = true) ∧ left.Arranged ∧ right.Arranged
  | _ => True

variable {a t left right : Tree} {op : Operator}

theorem pieces_of_root?_eq_none (h : t.root? = none) : t.pieces = [.operand t] := by
  cases t with
  | binary => cases h
  | _ => rfl

end Tree

inductive Alternates : List Token → List Piece → Prop where
  | last {x t} : Leaf x t → Alternates [x] [.operand t]
  | more {x t o op ts ps} : Leaf x t → o.kind = .operator op → Alternates ts ps →
      Alternates (x :: o :: ts) (.operand t :: .operator op :: ps)

section

variable {ts : List Token} {ps qs : List Piece} {t : Tree} {op : Operator} {k l : Level} {n : Nat}

theorem Alternates.split (h : Alternates ts (ps ++ .operator op :: qs)) :
    ∃ us o vs, ts = us ++ o :: vs ∧ o.kind = .operator op ∧ Alternates us ps ∧
      Alternates vs qs := by
  generalize hall : ps ++ .operator op :: qs = all at h
  induction h generalizing ps with
  | last hx =>
    cases ps with
    | nil => cases hall
    | cons p ps => cases ps <;> cases hall
  | @more x a o op' ts all hx ho h ih =>
    cases ps with
    | nil => cases hall
    | cons p ps =>
      cases ps with
      | nil =>
        cases hall
        exact ⟨[x], o, ts, rfl, ho, .last hx, h⟩
      | cons q ps =>
        cases hall
        obtain ⟨us, o', vs, rfl, ho', hus, hvs⟩ := ih rfl
        exact ⟨x :: o :: us, o', vs, rfl, ho', .more hx ho hus, hvs⟩

theorem Alternates.derives_member (h : Alternates ts t.pieces) (ht : t.root? = none) :
    Derives .member ts t 0 := by
  rw [Tree.pieces_of_root?_eq_none ht] at h
  cases h with
  | last hx => exact .leaf hx

theorem operand_eq_level (l : Level) :
    l = .union ∨ ∃ k, Grammar.operand l = .level k ∧ k.rank = l.rank + 1 := by
  cases l with
  | union => exact .inl rfl
  | _ => exact .inr ⟨_, rfl, rfl⟩

theorem Level.rank_le (l : Level) : l.rank ≤ Level.union.rank := by
  cases l <;> decide

/-- What stands on a level stands on every looser one. -/
theorem derives_of_rank_le (h : Derives (.level k) ts t n) (hrank : l.rank ≤ k.rank) :
    Derives (.level l) ts t n := by
  induction hd : k.rank - l.rank generalizing l with
  | zero =>
    obtain rfl : l = k := Level.rank_injective (by omega)
    exact h
  | succ d ih =>
    rcases operand_eq_level l with rfl | ⟨next, hnext, hr⟩
    · have := k.rank_le
      omega
    · have := ih (l := next) (by omega) (by omega)
      rw [← hnext] at this
      exact .single this

/-- An operand of a level whose root binds more tightly than the level. -/
theorem Alternates.derives_operand (h : Alternates ts t.pieces)
    (level : ∀ {k : Level}, (∀ root ∈ t.root?, k.rank ≤ root.level.rank) →
      ∃ n, Derives (.level k) ts t n)
    (hl : ∀ root ∈ t.root?, l.rank < root.level.rank) :
    ∃ n, Derives (Grammar.operand l) ts t n := by
  rcases operand_eq_level l with rfl | ⟨k, hk, hrank⟩
  · have leaf : t.root? = none := by
      rw [Option.eq_none_iff_forall_not_mem]
      intro root hroot
      exact absurd (hl root hroot) (Nat.not_lt.2 root.level.rank_le)
    exact ⟨0, h.derives_member leaf⟩
  · rw [hk]
    refine level fun root hroot => ?_
    have := hl root hroot
    omega

/-- An arranged tree is derived from its row, on every level that is no tighter than its root. -/
theorem Tree.Arranged.derives (ht : t.Arranged) (h : Alternates ts t.pieces)
    (hl : ∀ root ∈ t.root?, l.rank ≤ root.level.rank) : ∃ n, Derives (.level l) ts t n := by
  induction t using Tree.induction_on generalizing ts l with
  | h t ih =>
    cases t with
    | binary op left right =>
      obtain ⟨hleft, hright, htl, htr⟩ := ht
      obtain ⟨us, o, vs, rfl, ho, hus, hvs⟩ := h.split
      have left {k : Level} := ih left List.mem_cons_self (l := k) htl hus
      have right {k : Level} := ih right (by simp [Tree.children]) (l := k) htr hvs
      -- a product has its own level on its right, every other level has it on its left
      by_cases hop : op.level = .multiplicative
      · obtain ⟨m, hleft⟩ := hus.derives_operand left fun root hroot =>
          Operator.rank_lt_of_admits (hleft root hroot) (by simp [hop])
        obtain ⟨n, hright⟩ := right fun root hroot =>
          Operator.rank_le_of_admits (hright root hroot)
        rw [hop] at hleft hright
        exact ⟨_, derives_of_rank_le (.product hop ho hleft hright) (hop ▸ hl op rfl)⟩
      · obtain ⟨m, hleft⟩ := left fun root hroot =>
          Operator.rank_le_of_admits (hleft root hroot)
        obtain ⟨n, hright⟩ := hvs.derives_operand right fun root hroot =>
          Operator.rank_lt_of_admits (hright root hroot) (by simp [hop])
        exact ⟨_, derives_of_rank_le (.chain hop rfl ho hleft hright) (hl op rfl)⟩
    | _ => exact ⟨0, (h.derives_member rfl).level_of_member l⟩

end

end XPathSyntax
