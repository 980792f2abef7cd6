import XPathSyntax.Parser

/-! What a cursor has taken. Tokens are taken one by one, and never the end of input. Two cursors
that look alike and take the same tokens look alike again as soon as they see the same lookahead:
where the tokens came from, and what would follow, has left no trace. -/

namespace XPathSyntax

open XPathSyntax.Parser (advance)

theorem Parser.eq_of_advance {c d : Cursor} {t : Token} (h : advance.run c = .done t d) :
    t = c.lookahead ∧ d.feed.line = d.lookahead.line.getD c.feed.line := by
  unfold advance at h
  dsimp only at h
  split at h
  next token feed hn =>
    cases h
    refine ⟨rfl, ?_⟩
    unfold Feed.next at hn
    repeat' split at hn
    all_goals cases hn
    all_goals rfl
  next => cases h

namespace Cursor

/-- The tokens `us` are taken one by one from `c`, which leaves `d`. -/
inductive Takes : Cursor → List Token → Cursor → Prop where
  | nil (c : Cursor) : Takes c [] c
  | cons {c d e : Cursor} {us : List Token} : c.lookahead.kind ≠ .endOfInput →
      advance.run c = .done c.lookahead d → Takes d us e → Takes c (c.lookahead :: us) e

/-- Nothing that a parser can see without taking a token tells the two apart. -/
structure Alike (c d : Cursor) : Prop where
  lookahead : c.lookahead = d.lookahead
  line : c.feed.line = d.feed.line

theorem Alike.refl (c : Cursor) : Alike c c :=
  ⟨rfl, rfl⟩

namespace Takes

variable {c d e : Cursor} {us vs : List Token}

theorem eq_of_nil (h : c.Takes [] d) : c = d := by
  cases h
  rfl

theorem cons_inv {x : Token} (h : c.Takes (x :: us) e) :
    x = c.lookahead ∧ x.kind ≠ .endOfInput ∧
      ∃ d, advance.run c = .done c.lookahead d ∧ d.Takes us e := by
  cases h with
  | cons hk ha ht => exact ⟨rfl, hk, _, ha, ht⟩

theorem one {t : Token} (hk : c.lookahead.kind ≠ .endOfInput) (ha : advance.run c = .done t d) :
    c.Takes [c.lookahead] d := by
  obtain ⟨rfl, -⟩ := Parser.eq_of_advance ha
  exact .cons hk ha (.nil d)

theorem append (h : c.Takes us d) (h' : d.Takes vs e) : c.Takes (us ++ vs) e := by
  induction h with
  | nil => exact h'
  | cons hk ha _ ih => exact .cons hk ha (ih h')

theorem split (h : c.Takes (us ++ vs) e) : ∃ d, c.Takes us d ∧ d.Takes vs e := by
  induction us generalizing c with
  | nil => exact ⟨c, .nil c, h⟩
  | cons x us ih =>
    obtain ⟨rfl, hk, b, ha, ht⟩ := cons_inv h
    obtain ⟨d, hd, he⟩ := ih ht
    exact ⟨d, .cons hk ha hd, he⟩

theorem kind_ne_endOfInput (h : c.Takes us d) : ∀ x ∈ us, x.kind ≠ .endOfInput := by
  induction h with
  | nil => simp
  | cons hk _ _ ih => simpa using ⟨hk, ih⟩

theorem remaining_le (h : c.Takes us d) : d.remaining + us.length ≤ c.remaining := by
  induction h with
  | nil => simp
  | cons hk ha _ ih =>
    have := Parser.remaining_lt_of_advance hk ha
    simp only [List.length_cons]
    omega

/-- The first token taken is the lookahead. -/
theorem lookahead_eq (h : c.Takes us d) : c.lookahead = us.head?.getD d.lookahead := by
  cases h <;> rfl

/-- The line of a cursor is a matter of the tokens that it has seen. -/
theorem alike {c' d' : Cursor} (h : c.Takes us d) (h' : c'.Takes us d') (hc : Alike c c')
    (hl : d.lookahead = d'.lookahead) : Alike d d' := by
  induction us generalizing c c' with
  | nil =>
    cases eq_of_nil h
    cases eq_of_nil h'
    exact hc
  | cons x us ih =>
    obtain ⟨-, -, e, ha, ht⟩ := cons_inv h
    obtain ⟨-, -, e', ha', ht'⟩ := cons_inv h'
    have next : e.lookahead = e'.lookahead := by rw [lookahead_eq ht, lookahead_eq ht', hl]
    refine ih ht ht' ⟨next, ?_⟩
    rw [(Parser.eq_of_advance ha).2, (Parser.eq_of_advance ha').2, next, hc.line]

end Takes
end Cursor
end XPathSyntax
