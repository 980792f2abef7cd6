import XPathSyntax.Limits
import XPathSyntax.Source

/-! Parsers with one token of lookahead. A parser carries the proof that it never leaves more of
its source than it found, so that a loop in which every round takes a token ends by itself. -/

namespace XPathSyntax

/-- What a parser sees: one token, and the feed of those behind it. -/
structure Cursor where
  lookahead : Token
  feed : Feed
  deriving DecidableEq

def Cursor.remaining (c : Cursor) : Nat :=
  c.feed.remaining + if c.lookahead.kind = .endOfInput then 0 else 1

/-- Either way a parser says how far it has come. -/
inductive Outcome (α : Type) where
  | done (value : α) (cursor : Cursor)
  | failed (error : Error) (cursor : Cursor)

def Outcome.cursor {α : Type} : Outcome α → Cursor
  | done _ c | failed _ c => c

structure Parser (α : Type) where
  run : Cursor → Outcome α
  remaining_le : ∀ c, (run c).cursor.remaining ≤ c.remaining

namespace Parser

variable {α β : Type}

theorem ext {p q : Parser α} (h : ∀ c, p.run c = q.run c) : p = q := by
  cases p
  cases q
  congr
  exact funext h

theorem remaining_le_of_done {p : Parser α} {c c' : Cursor} {a : α} (h : p.run c = .done a c') :
    c'.remaining ≤ c.remaining := by
  have := p.remaining_le c
  rwa [h] at this

instance : Monad Parser where
  pure a := ⟨.done a, fun _ => Nat.le_refl _⟩
  bind p f :=
    ⟨fun c =>
      match p.run c with
      | .done a c' => (f a).run c'
      | .failed error c' => .failed error c',
    fun c => by
      have first := p.remaining_le c
      split
      next a c' h =>
        rw [h] at first
        exact Nat.le_trans ((f a).remaining_le c') first
      next h => rwa [h] at first⟩

@[simp] theorem run_pure (a : α) (c : Cursor) : (pure a : Parser α).run c = .done a c := rfl

theorem run_bind (p : Parser α) (f : α → Parser β) (c : Cursor) :
    (p >>= f).run c =
      match p.run c with
      | .done a c' => (f a).run c'
      | .failed error c' => .failed error c' := rfl

theorem run_bind_of_done {p : Parser α} {f : α → Parser β} {c c' : Cursor} {a : α}
    (h : p.run c = .done a c') : (p >>= f).run c = (f a).run c' := by
  rw [run_bind, h]

theorem run_bind_of_failed {p : Parser α} {f : α → Parser β} {c c' : Cursor} {error : Error}
    (h : p.run c = .failed error c') : (p >>= f).run c = .failed error c' := by
  rw [run_bind, h]

instance : LawfulMonad Parser := LawfulMonad.mk' _
  (fun p => ext fun c => by
    change ((p >>= fun a => pure a).run c) = p.run c
    rw [run_bind]
    split <;> simp_all)
  (fun _ _ => rfl)
  (fun p f g => ext fun c => by
    simp only [run_bind]
    cases p.run c <;> rfl)

def look : Parser Token :=
  ⟨fun c => .done c.lookahead c, fun _ => Nat.le_refl _⟩

def failAt (error : Nat → Error) : Parser α :=
  ⟨fun c => .failed (error c.feed.line) c, fun _ => Nat.le_refl _⟩

def reject (fault : SyntaxFault) : Parser α :=
  failAt (.syntactic fault)

def tooDeep (limit : Nat) : Parser α :=
  failAt (.tooDeep limit)

theorem remaining_le_of_next {f f' : Feed} {token : Token} (h : f.next = (.ok token, f')) :
    (Cursor.mk token f').remaining ≤ f.remaining := by
  have le := Feed.remaining_le_of_next h
  unfold Cursor.remaining
  dsimp only
  split
  · omega
  · have := Feed.remaining_lt_of_next h ‹_›
    omega

/-- Takes the next token; the one behind it is asked for at once. -/
def advance : Parser Token where
  run c :=
    match c.feed.next with
    | (.ok token, feed) => .done c.lookahead ⟨token, feed⟩
    | (.error error, feed) => .failed error ⟨c.lookahead, feed⟩
  remaining_le c := by
    split
    next h => exact Nat.le_trans (remaining_le_of_next h) (Nat.le_add_right _ _)
    next h => exact Nat.add_le_add_right (Feed.remaining_le_of_next h) _

/-- Taking a token other than the end of input leaves one less. -/
theorem remaining_lt_of_advance {c c' : Cursor} {token : Token}
    (hk : c.lookahead.kind ≠ .endOfInput) (h : advance.run c = .done token c') :
    c'.remaining < c.remaining := by
  unfold advance at h
  dsimp only at h
  split at h
  next hn =>
    cases h
    have := remaining_le_of_next hn
    simp only [Cursor.remaining, if_neg hk] at this ⊢
    omega
  next => cases h

def eat (kind : Token.Kind) : Parser Bool := do
  if (← look).kind = kind then
    let _ ← advance
    return true
  else
    return false

def expect (kind : Token.Kind) : Parser Token := do
  let found ← look
  if found.kind = kind then advance else reject (.expected (.token kind) found)

/-- As long as the next token begins another round, takes it and runs the round on the value
reached so far. -/
def rounds (begins : Token.Kind → Option β) (round : β → α → Parser α)
    (hb : begins .endOfInput = none) (a : α) (c : Cursor) : Outcome α :=
  match _hk : begins c.lookahead.kind with
  | none => .done a c
  | some b =>
    match _ha : advance.run c with
    | .failed error c' => .failed error c'
    | .done _ c' =>
      match _hr : (round b a).run c' with
      | .failed error c'' => .failed error c''
      | .done a' c'' => rounds begins round hb a' c''
termination_by c.remaining
decreasing_by
  refine Nat.lt_of_le_of_lt (remaining_le_of_done _hr) (remaining_lt_of_advance ?_ _ha)
  intro h
  rw [h, hb] at _hk
  cases _hk

theorem rounds_remaining_le (begins : Token.Kind → Option β) (round : β → α → Parser α)
    (hb : begins .endOfInput = none) (a : α) (c : Cursor) :
    (rounds begins round hb a c).cursor.remaining ≤ c.remaining := by
  fun_induction rounds begins round hb a c with
  | case1 => exact Nat.le_refl _
  | case2 a c b hk error c' ha =>
    have := advance.remaining_le c
    rwa [ha] at this
  | case3 a c b hk token c' ha error c'' hr =>
    have := (round b a).remaining_le c'
    rw [hr] at this
    exact Nat.le_trans this (remaining_le_of_done ha)
  | case4 a c b hk token c' ha a' c'' hr ih =>
    exact Nat.le_trans ih (Nat.le_trans (remaining_le_of_done hr) (remaining_le_of_done ha))

def whileNext (begins : Token.Kind → Option β) (round : β → α → Parser α) (a : α)
    (hb : begins .endOfInput = none := by rfl) : Parser α :=
  ⟨rounds begins round hb a, rounds_remaining_le begins round hb a⟩

theorem whileNext_eq (begins : Token.Kind → Option β) (round : β → α → Parser α) (a : α)
    (hb : begins .endOfInput = none) :
    whileNext begins round a hb =
      (do
        match begins (← look).kind with
        | none => pure a
        | some b =>
          let _ ← advance
          whileNext begins round (← round b a) hb) := by
  apply ext
  intro c
  change rounds begins round hb a c = _
  rw [rounds]
  simp only [run_bind, look]
  split
  next h => simp only [h, run_pure]
  next b h =>
    simp only [h, run_bind]
    split
    next ha => simp only [ha]
    next ha =>
      simp only [ha]
      split
      next hr => simp only [hr]
      next hr =>
        simp only [hr]
        rfl

def separatedFrom (mark : Token.Kind) (item : Parser α) (hm : mark ≠ .endOfInput)
    (found : List α) : Parser (List α) :=
  whileNext (fun kind => if kind = mark then some () else none)
    (fun _ found => return (← item) :: found) found (if_neg hm.symm)

/-- `item (mark item)*`, the items in order. -/
def separatedBy (mark : Token.Kind) (item : Parser α) (hm : mark ≠ .endOfInput := by decide) :
    Parser (List α) := do
  return (← separatedFrom mark item hm [← item]).reverse

end Parser
end XPathSyntax
