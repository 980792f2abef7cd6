import XPathSyntax.Parser.Expression
import XPathSyntax.Proofs.Parser.Taking

/-! What a run costs. A run of which the tokens are known goes on at the place where they end, as
long as it needs no more nesting and no more height than is allowed; otherwise it fails for one of
the two reasons, and that reason is a true one. Costs of runs that follow one another are joined by
the maximum, so the limits are charged exactly if every single cost is exact. -/

namespace XPathSyntax

def Outcome.IsTooDeep {α : Type} (o : Outcome α) (limit : Nat) : Prop :=
  ∃ line c, o = .failed (.tooDeep limit line) c

/-- `o` needs a nesting of `n`, of which `allowed` is left, and a height of `h` to become `o'`. -/
inductive Costs {α : Type} (limits : Limits) (allowed n h : Nat) (o o' : Outcome α) : Prop where
  | within : n ≤ allowed → h ≤ limits.height → o = o' → Costs limits allowed n h o o'
  | nesting : allowed < n → o.IsTooDeep limits.nesting → Costs limits allowed n h o o'
  | height : limits.height < h → o.IsTooDeep limits.height → Costs limits allowed n h o o'

namespace Costs

variable {α β : Type} {limits : Limits} {k m n h j : Nat} {o o' o'' : Outcome α}

theorem cast (hn : m = n) (hh : h = j) (hc : Costs limits k m h o o') :
    Costs limits k n j o o' := by
  subst hn hh
  exact hc

theorem trans (hc : Costs limits k m h o o') (hc' : Costs limits k n j o' o'') :
    Costs limits k (max m n) (max h j) o o'' := by
  cases hc with
  | nesting hm ho => exact .nesting (by omega) ho
  | height hh ho => exact .height (by omega) ho
  | within hm hh ho =>
    subst ho
    cases hc' with
    | within hn hj ho' => exact .within (by omega) (by omega) ho'
    | nesting hn ho => exact .nesting (by omega) ho
    | height hj ho => exact .height (by omega) ho

/-- One level further in, one more is needed and one more allowed. -/
theorem succ (hc : Costs limits k n h o o') : Costs limits (k + 1) (n + 1) h o o' := by
  cases hc with
  | within hn hh ho => exact .within (by omega) hh ho
  | nesting hn ho => exact .nesting (by omega) ho
  | height hh ho => exact .height hh ho

theorem bind {p q : Parser α} {f : α → Parser β} {c d : Cursor}
    (hc : Costs limits k n h (p.run c) (q.run d)) :
    Costs limits k n h ((p >>= f).run c) ((q >>= f).run d) := by
  have failed {limit} (ho : (p.run c).IsTooDeep limit) : ((p >>= f).run c).IsTooDeep limit := by
    obtain ⟨line, e, ho⟩ := ho
    exact ⟨line, e, Parser.run_bind_of_failed ho⟩
  cases hc with
  | within hn hh ho => exact .within hn hh (by rw [Parser.run_bind, Parser.run_bind, ho])
  | nesting hn ho => exact .nesting hn (failed ho)
  | height hh ho => exact .height hh (failed ho)

theorem bind_done {p : Parser α} {f : α → Parser β} {c d : Cursor} {a : α}
    (hc : Costs limits k n h (p.run c) (.done a d)) :
    Costs limits k n h ((p >>= f).run c) ((f a).run d) :=
  bind (q := pure a) hc

end Costs

namespace Parser

variable {α β : Type} {c e : Cursor} {us : List Token} {x : Token}

theorem run_look_bind (f : Token → Parser α) (c : Cursor) :
    (look >>= f).run c = (f c.lookahead).run c := rfl

theorem run_advance_bind (h : c.Takes (x :: us) e) :
    ∃ d, d.Takes us e ∧ ∀ f : Token → Parser α, (advance >>= f).run c = (f x).run d := by
  obtain ⟨rfl, -, d, ha, ht⟩ := h.cons_inv
  exact ⟨d, ht, fun f => run_bind_of_done ha⟩

theorem run_expect_bind {kind : Token.Kind} (h : c.Takes (x :: us) e) (hx : x.kind = kind) :
    ∃ d, d.Takes us e ∧ ∀ f : Token → Parser α, (expect kind >>= f).run c = (f x).run d := by
  obtain ⟨rfl, -, d, ha, ht⟩ := h.cons_inv
  refine ⟨d, ht, fun f => run_bind_of_done ?_⟩
  rw [expect, run_look_bind, if_pos hx, ha]

theorem run_eat_bind {kind : Token.Kind} (h : c.Takes (x :: us) e) (hx : x.kind = kind) :
    ∃ d, d.Takes us e ∧ ∀ f : Bool → Parser α, (eat kind >>= f).run c = (f true).run d := by
  obtain ⟨rfl, -, d, ha, ht⟩ := h.cons_inv
  refine ⟨d, ht, fun f => run_bind_of_done ?_⟩
  rw [eat, run_look_bind, if_pos hx, run_bind_of_done ha, run_pure]

theorem run_eat_bind_of_ne {kind : Token.Kind} (hc : c.lookahead.kind ≠ kind)
    (f : Bool → Parser α) :
    (eat kind >>= f).run c = (f false).run c := by
  apply run_bind_of_done
  rw [eat, run_look_bind, if_neg hc, run_pure]

theorem run_whileNext_of_none {begins : Token.Kind → Option β} {round : β → α → Parser α}
    {hb : begins .endOfInput = none} (a : α) (hc : begins c.lookahead.kind = none) :
    (whileNext begins round a hb).run c = .done a c := by
  rw [whileNext_eq, run_look_bind, hc, run_pure]

theorem run_whileNext_of_some (begins : Token.Kind → Option β) (round : β → α → Parser α)
    (hb : begins .endOfInput = none) (a : α) {b : β} (h : c.Takes (x :: us) e)
    (hx : begins x.kind = some b) :
    ∃ d, d.Takes us e ∧ (whileNext begins round a hb).run c =
      (round b a >>= fun a' => whileNext begins round a' hb).run d := by
  obtain ⟨d, ht, hrun⟩ := run_advance_bind (α := α) h
  obtain ⟨rfl, -, -⟩ := h.cons_inv
  refine ⟨d, ht, ?_⟩
  rw [whileNext_eq, run_look_bind, hx, hrun]

end Parser
end XPathSyntax
