import Mathlib.Control.Monad.Basic
import XPathSyntax.Parse
import XPathSyntax.Proofs.Parser.Taking
import XPathSyntax.Tree.Equality

/-! Sources that begin with tokens. A cursor that faces some tokens can take them one by one, up to
what stands behind them; behind the last token the source either ends or fails. The line of the
cursor is that of the last token seen that has one. -/

namespace XPathSyntax

open XPathSyntax.Parser (advance)

/-- The line of the last token that has one, the first line if there is none. -/
def Token.lastLine (ts : List Token) : Nat :=
  (ts.filterMap (·.line)).getLast?.getD 1

theorem Token.lastLine_append (ts : List Token) (x : Token) :
    lastLine (ts ++ [x]) = x.line.getD (lastLine ts) := by
  unfold lastLine
  cases h : x.line with
  | none => simp [h]
  | some line => simp [h]

def Outcome.result {α : Type} : Outcome α → Except Error α
  | done a _ => .ok a
  | failed error _ => .error error

namespace Cursor

structure Faces (c : Cursor) (x : Token) (xs : List Token) (more : Source) : Prop where
  lookahead : c.lookahead = x
  pending : c.feed.pending = xs.map .token ++ more
  exhausted : c.feed.exhausted = false

def first (x : Token) (xs : List Token) (more : Source) : Cursor :=
  ⟨x, { pending := xs.map .token ++ more, line := x.line.getD 1 }⟩

theorem faces_first (x : Token) (xs : List Token) (more : Source) :
    (first x xs more).Faces x xs more :=
  ⟨rfl, rfl, rfl⟩

/-- Nothing behind the tokens, or a failure at once. -/
def Closed (more : Source) : Prop :=
  more = [] ∨ ∃ error rest, more = .failure error :: rest

variable {c d : Cursor} {x y : Token} {xs ys us : List Token} {more : Source}

theorem Faces.advance (h : c.Faces x (y :: ys) more) :
    ∃ d, advance.run c = .done x d ∧ d.Faces y ys more := by
  obtain ⟨rfl, hp, he⟩ := h
  refine ⟨⟨y, { c.feed with pending := ys.map .token ++ more, line := y.line.getD c.feed.line }⟩,
    ?_, rfl, rfl, he⟩
  simp [Parser.advance, Feed.next, hp, he]

theorem Faces.advance_end (h : c.Faces x [] []) :
    ∃ d, Parser.advance.run c = .done x d ∧ d.lookahead = .endOfInput := by
  obtain ⟨rfl, hp, he⟩ := h
  refine ⟨⟨.endOfInput, { c.feed with exhausted := true }⟩, ?_, rfl⟩
  rw [List.map_nil, List.nil_append] at hp
  simp [Parser.advance, Feed.next, hp, he]

theorem Faces.advance_failure {error : Error} {rest : Source}
    (h : c.Faces x [] (.failure error :: rest)) : ∃ d, Parser.advance.run c = .failed error d := by
  obtain ⟨rfl, hp, he⟩ := h
  exact ⟨_, by simp [Parser.advance, Feed.next, hp, he]; rfl⟩

/-- What a cursor faces it can take. -/
theorem Faces.takes (h : c.Faces x xs more) (hxs : x :: xs = us ++ y :: ys)
    (hus : ∀ u ∈ us, u.kind ≠ .endOfInput) : ∃ d, c.Takes us d ∧ d.Faces y ys more := by
  induction us generalizing c x xs with
  | nil =>
    cases hxs
    exact ⟨c, .nil c, h⟩
  | cons u us ih =>
    rw [List.cons_append] at hxs
    obtain ⟨rfl, htail⟩ := List.cons.inj hxs
    obtain ⟨z, zs, hz⟩ : ∃ z zs, us ++ y :: ys = z :: zs := by
      cases us <;> exact ⟨_, _, rfl⟩
    rw [htail, hz] at h
    obtain ⟨b, ha, hb⟩ := h.advance
    obtain ⟨d, ht, hd⟩ := ih hb hz.symm fun v hv => hus v (List.mem_cons_of_mem _ hv)
    have hx := h.lookahead
    subst hx
    exact ⟨d, .cons (hus _ List.mem_cons_self) ha ht, hd⟩

theorem Faces.takes_all (h : c.Faces x xs []) (hxs : ∀ u ∈ x :: xs, u.kind ≠ .endOfInput) :
    ∃ d, c.Takes (x :: xs) d ∧ d.lookahead = .endOfInput := by
  obtain ⟨us, y, hus⟩ : ∃ us y, x :: xs = us ++ [y] :=
    ⟨_, _, (List.dropLast_concat_getLast (List.cons_ne_nil x xs)).symm⟩
  rw [hus] at hxs ⊢
  obtain ⟨b, ht, hb⟩ := h.takes hus fun u hu => hxs u (List.mem_append_left _ hu)
  obtain ⟨d, ha, hd⟩ := hb.advance_end
  have hy := hb.lookahead
  subst hy
  exact ⟨d, ht.append (.one (hxs _ (by simp)) ha), hd⟩

/-- Whatever has been taken was faced. -/
theorem Faces.of_takes (h : c.Faces x xs more) (hmore : Closed more) (ht : c.Takes us d) :
    (∃ y ys, x :: xs = us ++ y :: ys ∧ d.Faces y ys more) ∨
      more = [] ∧ us = x :: xs ∧ d.lookahead = .endOfInput := by
  induction us generalizing c x xs with
  | nil =>
    cases ht.eq_of_nil
    exact .inl ⟨x, xs, rfl, h⟩
  | cons u us ih =>
    obtain ⟨rfl, -, b, ha, ht⟩ := ht.cons_inv
    have hx := h.lookahead
    subst hx
    cases xs with
    | cons z zs =>
      obtain ⟨b', ha', hb⟩ := h.advance
      rw [ha] at ha'
      cases ha'
      rcases ih hb ht with ⟨y, ys, hz, hd⟩ | ⟨hmore, rfl, hd⟩
      · exact .inl ⟨y, ys, by rw [hz]; rfl, hd⟩
      · exact .inr ⟨hmore, rfl, hd⟩
    | nil =>
      rcases hmore with rfl | ⟨error, rest, rfl⟩
      · obtain ⟨b', ha', hb⟩ := h.advance_end
        rw [ha] at ha'
        cases ha'
        cases us with
        | nil =>
          cases ht.eq_of_nil
          exact .inr ⟨rfl, rfl, hb⟩
        | cons v vs =>
          obtain ⟨rfl, hk, -⟩ := ht.cons_inv
          exact absurd (by rw [hb]; rfl) hk
      · obtain ⟨b', ha'⟩ := h.advance_failure
        rw [ha] at ha'
        cases ha'

/-- A cursor keeps the line of the last token it has seen. -/
theorem Takes.line_eq (before : List Token) (h : c.Takes us d)
    (hc : c.feed.line = Token.lastLine (before ++ [c.lookahead])) :
    d.feed.line = Token.lastLine (before ++ us ++ [d.lookahead]) := by
  induction h generalizing before with
  | nil => simpa using hc
  | @cons c b e us _ ha _ ih =>
    have := ih (before ++ [c.lookahead]) (by
      rw [(Parser.eq_of_advance ha).2, Token.lastLine_append, hc])
    simpa using this

theorem line_eq_of_first (h : (first x xs more).Takes us d) :
    d.feed.line = Token.lastLine (us ++ [d.lookahead]) := by
  apply h.line_eq []
  rw [Token.lastLine_append]
  rfl

end Cursor

/-- A source that begins with a token is read as a sentence. -/
theorem Parser.run_root (limits : Limits) {x : Token} (hx : x.kind ≠ .endOfInput)
    (xs : List Token) (more : Source) :
    (root limits).run ⟨.endOfInput, .ofSource ((x :: xs).map .token ++ more)⟩ =
      (do return some (← sentence limits) : Parser (Option Tree)).run (.first x xs more) := by
  have first : advance.run ⟨.endOfInput, .ofSource ((x :: xs).map .token ++ more)⟩ =
      .done .endOfInput (.first x xs more) := rfl
  rw [root, run_bind_of_done first]
  change (if x.kind = .endOfInput then _ else _ : Parser (Option Tree)).run _ = _
  rw [if_neg hx]

theorem parseSource_cons (limits : Limits) {x : Token} (hx : x.kind ≠ .endOfInput)
    (xs : List Token) (more : Source) :
    parseSource limits ((x :: xs).map .token ++ more) =
      ((Parser.sentence limits).run (.first x xs more)).result.map some := by
  rw [parseSource, Parser.run_root limits hx, Parser.run_bind]
  cases (Parser.sentence limits).run (.first x xs more) <;> rfl

end XPathSyntax
