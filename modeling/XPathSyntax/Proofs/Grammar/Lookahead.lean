import XPathSyntax.Proofs.Grammar.Forms
import XPathSyntax.Proofs.Parser.Cost

/-! What can begin a form, and what can follow it. One token of lookahead decides between forms by
what begins them. Where the next token is one that can follow the form, its parser stops. Levels
and steps are read by loops, so what has been read of them can pause: the loop would go on with the
tree built so far. -/

namespace XPathSyntax

namespace Grammar

def begins : Form → Token.Kind → Bool
  | _, .name | _, .nodeType | _, .axis => true
  | .step, _ => false
  | _, .slash | _, .literal | _, .integer | _, .decimal | _, .reference | _, .openParen => true
  | _, _ => false

theorem begins_step (kind : Token.Kind) : begins .step kind = kind.beginsStep := by
  cases kind <;> rfl

theorem begins_of_step {kind : Token.Kind} (form : Form) (h : begins .step kind = true) :
    begins form kind = true := by
  cases form <;> cases kind <;> first | rfl | cases h

theorem NodeTest.begins {ts : List Token} {t : Tree} (h : NodeTest ts t) :
    ∃ x us, ts = x :: us ∧ begins .step x.kind = true := by
  cases h with
  | name hx => exact ⟨_, _, rfl, by simp [hx, Grammar.begins]⟩
  | qualified hq => exact ⟨_, _, rfl, by simp [hq, Grammar.begins]⟩
  | nodeType hx => exact ⟨_, _, rfl, by simp [hx, Grammar.begins]⟩

theorem begins_level (l : Level) (form : Form) (kind : Token.Kind) (hf : form ≠ .step) :
    begins (.level l) kind = begins form kind := by
  cases form <;> first | exact absurd rfl hf | cases kind <;> rfl

mutual

theorem Derives.begins {form ts t n} :
    Derives form ts t n → ∃ x us, ts = x :: us ∧ begins form x.kind = true
  | .expression h => by
    obtain ⟨x, us, rfl, hx⟩ := h.begins
    exact ⟨x, us, rfl, by rwa [← begins_level .or .expression x.kind (by decide)]⟩
  | .single (l := l) h => by
    obtain ⟨x, us, rfl, hx⟩ := h.begins
    exact ⟨x, us, rfl, by rwa [begins_level l (operand l) x.kind (by cases l <;> decide)]⟩
  | .chain _ _ _ h _ => by
    obtain ⟨x, us, rfl, hx⟩ := h.begins
    exact ⟨x, _, rfl, hx⟩
  | .product _ _ h _ => by
    obtain ⟨x, us, rfl, hx⟩ := h.begins
    exact ⟨x, _, rfl, by rwa [begins_level _ (.level .union) x.kind (by decide)]⟩
  | .leaf h => ⟨_, _, rfl, by cases h <;> simp_all [Grammar.begins]⟩
  | .group ho _ _ => ⟨_, _, rfl, by simp [ho, Grammar.begins]⟩
  | .lone h => by
    obtain ⟨x, us, rfl, hx⟩ := h.begins
    exact ⟨x, us, rfl, begins_of_step _ hx⟩
  | .path h _ => by
    obtain ⟨x, us, rfl, hx⟩ := h.begins
    exact ⟨x, us, rfl, begins_of_step _ hx⟩
  | .root hs => ⟨_, _, rfl, by simp [hs, Grammar.begins]⟩
  | .absolute hs _ => ⟨_, _, rfl, by simp [hs, Grammar.begins]⟩
  | .emptyCall hf _ _ => ⟨_, _, rfl, by simp [hf, Grammar.begins]⟩
  | .call hf _ _ _ => ⟨_, _, rfl, by simp [hf, Grammar.begins]⟩
  | .child h => h.begins
  | .axis ha _ _ => ⟨_, _, rfl, by simp [ha, Grammar.begins]⟩
  | .predicate _ _ h _ => by
    obtain ⟨x, us, rfl, hx⟩ := h.begins
    exact ⟨x, _, rfl, hx⟩

theorem DerivesAll.begins {form mark ts trees n} :
    DerivesAll form mark ts trees n → ∃ x us, ts = x :: us ∧ begins form x.kind = true
  | .one h => h.begins
  | .more _ h _ => by
    obtain ⟨x, us, rfl, hx⟩ := h.begins
    exact ⟨x, _, rfl, hx⟩

end

def follows : Form → Token.Kind → Bool
  | _, .comma | _, .closeBracket | _, .closeParen | _, .endOfInput => true
  | .level l, .operator op => op.level.rank < l.rank
  | .member, .operator _ | .step, .operator _ | .step, .slash => true
  | _, _ => false

/-- The kinds of the tokens that can stand behind the beginning of a form that is a form itself. -/
def pauses : Form → Token.Kind → Bool
  | .level .multiplicative, kind => follows (.level .multiplicative) kind
  | .level l, kind => follows (operand l) kind
  | .step, kind => kind = .openBracket || follows .step kind
  | form, kind => follows form kind

theorem pauses_level {l : Level} (hl : l ≠ .multiplicative) (kind : Token.Kind) :
    pauses (.level l) kind = follows (operand l) kind := by
  cases l <;> first | rfl | exact absurd rfl hl

variable {kind : Token.Kind} {l : Level}

/-- What follows a level is an operator of a looser level, or closes what stands around it. -/
theorem follows_level (h : follows (.level l) kind = true) :
    follows (operand l) kind = true ∧ Parser.operatorAt l kind = none := by
  cases kind with
  | operator op =>
    have less : op.level.rank < l.rank := by simpa [follows] using h
    constructor
    · cases l with
      | multiplicative => exact decide_eq_true (Nat.lt_succ_of_lt less)
      | union => rfl
      | _ => exact decide_eq_true (Nat.lt_succ_of_lt less)
    · have ne : op.level ≠ l := fun he => by simp [he] at less
      simp [Parser.operatorAt, ne]
  | comma | closeBracket | closeParen | endOfInput => exact ⟨by cases l <;> rfl, rfl⟩
  | _ => cases h

theorem follows_operand (op : Operator) : follows (operand op.level) (.operator op) = true := by
  cases op <;> rfl

theorem follows_member (h : follows .member kind = true) :
    follows .step kind = true ∧ kind ≠ .slash ∧ kind.beginsStep = false := by
  cases kind <;> simp_all [follows, Token.Kind.beginsStep]

theorem follows_or (h : follows .expression kind = true) : follows (.level .or) kind = true := by
  cases kind <;> first | rfl | cases h

theorem pauses_step (h : pauses .step kind = true) : kind ≠ .colon ∧ kind ≠ .openParen := by
  cases kind <;> simp_all [pauses, follows]

theorem ne_openBracket_of_follows_step (h : follows .step kind = true) : kind ≠ .openBracket := by
  rintro rfl
  cases h

theorem pauses_of_follows {form : Form} (h : follows form kind = true) :
    pauses form kind = true := by
  cases form with
  | expression => exact h
  | member => exact h
  | step => simp [pauses, h]
  | level l =>
    cases l with
    | multiplicative => exact h
    | _ => exact (follows_level h).1

end Grammar

namespace Parser

open Grammar (Form)

variable (limits : Limits) (inside : Entry → Parser Subtree)

/-- How the parser of a form goes on behind the beginning of a form that is a form itself. -/
def further : Form → Subtree → Parser Subtree
  | .level .multiplicative => pure
  | .level l => chainFrom limits l (ofForm limits inside (Grammar.operand l))
  | .step => predicates limits (inside .expression)
  | _ => pure

theorem further_level {l : Level} (hl : l ≠ .multiplicative) :
    further limits inside (.level l) =
      chainFrom limits l (ofForm limits inside (Grammar.operand l)) := by
  cases l <;> first | rfl | exact absurd rfl hl

theorem run_further_of_follows {form : Form} {c : Cursor} (s : Subtree)
    (h : Grammar.follows form c.lookahead.kind = true) :
    (further limits inside form s).run c = .done s c := by
  cases form with
  | expression => rfl
  | member => rfl
  | step =>
    exact run_whileNext_of_none s (if_neg (Grammar.ne_openBracket_of_follows_step h))
  | level l =>
    cases l with
    | multiplicative => rfl
    | _ => exact run_whileNext_of_none s (Grammar.follows_level h).2

end Parser
end XPathSyntax
