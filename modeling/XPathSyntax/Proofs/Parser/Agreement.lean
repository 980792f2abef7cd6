import Mathlib.Data.List.Forall2
import XPathSyntax.Parse
import XPathSyntax.Proofs.Grammar.Content

/-! Lines make no difference but in errors. Two sources that yield the same tokens, or fail for the
same cause, on whatever lines, are parsed step by step in the same way: the trees are the same, and
so are the messages and the limits of the errors. -/

namespace XPathSyntax

inductive Error.Agrees : Error → Error → Prop where
  | lexical {fault fault' : LexicalFault} {line line' : Nat} : fault.message = fault'.message →
      Agrees (.lexical fault line) (.lexical fault' line')
  | syntactic {fault fault' : SyntaxFault} {line line' : Nat} : fault.message = fault'.message →
      Agrees (.syntactic fault line) (.syntactic fault' line')
  | tooDeep {limit line line' : Nat} : Agrees (.tooDeep limit line) (.tooDeep limit line')

/-- The same value, or errors that differ at most in their lines. -/
inductive Agree {α : Type} : Except Error α → Except Error α → Prop where
  | ok (a : α) : Agree (.ok a) (.ok a)
  | error {error error' : Error} : error.Agrees error' → Agree (.error error) (.error error')

inductive Source.Item.Agrees : Item → Item → Prop where
  | token {x y : Token} : x.content = y.content → Agrees (.token x) (.token y)
  | failure {error error' : Error} : error.Agrees error' → Agrees (.failure error) (.failure error')
  | gap : Agrees .gap .gap

theorem Token.describe_eq {x y : Token} (h : x.content = y.content) : x.describe = y.describe := by
  have value : x.value = y.value := congrArg Prod.snd h
  rw [describe, describe, value, kind_eq h]

structure Cursor.Agrees (c d : Cursor) : Prop where
  lookahead : c.lookahead.content = d.lookahead.content
  pending : List.Forall₂ Source.Item.Agrees c.feed.pending d.feed.pending
  exhausted : c.feed.exhausted = d.feed.exhausted

inductive Outcome.Agree {α β : Type} (Related : α → β → Prop) : Outcome α → Outcome β → Prop where
  | done {a : α} {b : β} {c d : Cursor} : Related a b → c.Agrees d →
      Agree Related (.done a c) (.done b d)
  | failed {error error' : Error} {c d : Cursor} : error.Agrees error' →
      Agree Related (.failed error c) (.failed error' d)

namespace Parser

variable {α β γ δ : Type} {R : α → β → Prop} {S : γ → δ → Prop}

def Agree (Related : α → β → Prop) (p : Parser α) (q : Parser β) : Prop :=
  ∀ c d : Cursor, c.Agrees d → Outcome.Agree Related (p.run c) (q.run d)

/-- Which lines its tokens have makes no difference to the parser. -/
def IgnoresLines (p : Parser α) : Prop :=
  Agree Eq p p

theorem agree_pure {a : α} {b : β} (h : R a b) : Agree R (pure a) (pure b) :=
  fun _ _ hcd => .done h hcd

/-- Where the first parts agree, the second parts go on from cursors that agree. -/
theorem agree_bind_run {p : Parser α} {q : Parser β} {f : α → Parser γ} {g : β → Parser δ}
    {c d : Cursor} (hp : Outcome.Agree R (p.run c) (q.run d))
    (hf : ∀ a b c' d', p.run c = .done a c' → R a b → c'.Agrees d' →
      Outcome.Agree S ((f a).run c') ((g b).run d')) :
    Outcome.Agree S ((p >>= f).run c) ((q >>= g).run d) := by
  generalize hc : p.run c = o at hp hf
  generalize hd : q.run d = o' at hp
  cases hp with
  | done hab hcd =>
    rw [run_bind_of_done hc, run_bind_of_done hd]
    exact hf _ _ _ _ rfl hab hcd
  | failed he =>
    rw [run_bind_of_failed hc, run_bind_of_failed hd]
    exact .failed he

theorem Agree.bind {p : Parser α} {q : Parser β} {f : α → Parser γ} {g : β → Parser δ}
    (hp : Agree R p q) (hf : ∀ a b, R a b → Agree S (f a) (g b)) :
    Agree S (p >>= f) (q >>= g) :=
  fun c d hcd => agree_bind_run (hp c d hcd) fun a b c' d' _ hab => hf a b hab c' d'

theorem agree_look : Agree (fun x y : Token => x.content = y.content) look look :=
  fun _ _ hcd => .done hcd.lookahead hcd

theorem agree_advance : Agree (fun x y : Token => x.content = y.content) advance advance := by
  rintro ⟨x, ⟨pending, exhausted, line⟩⟩ ⟨y, ⟨pending', exhausted', line'⟩⟩ ⟨hxy, hpending, rfl⟩
  cases exhausted with
  | true => exact .done hxy ⟨rfl, hpending, rfl⟩
  | false =>
    cases hpending with
    | nil => exact .done hxy ⟨rfl, .nil, rfl⟩
    | cons hitem hrest =>
      cases hitem with
      | token h => exact .done hxy ⟨h, hrest, rfl⟩
      | failure h => exact .failed h
      | gap => exact .done hxy ⟨rfl, hrest, rfl⟩

theorem agree_reject {fault fault' : SyntaxFault} (h : fault.message = fault'.message) :
    Agree R (reject fault) (reject fault') :=
  fun _ _ _ => .failed (.syntactic h)

/-- A fault at the next token says the same of tokens with the same content. -/
theorem agree_expected (what : Expectation) {x y : Token} (hxy : x.content = y.content) :
    Agree R (reject (.expected what x)) (reject (.expected what y)) :=
  agree_reject (by rw [SyntaxFault.message, SyntaxFault.message, Token.describe_eq hxy])

theorem ignoresLines_tooDeep (limit : Nat) : IgnoresLines (tooDeep limit : Parser α) :=
  fun _ _ _ => .failed .tooDeep

theorem IgnoresLines.bind {p : Parser α} {f : α → Parser γ} (hp : IgnoresLines p)
    (hf : ∀ a, IgnoresLines (f a)) : IgnoresLines (p >>= f) := by
  refine Agree.bind hp fun a b hab => ?_
  subst hab
  exact hf a

/-- What is done with a token that comes next depends on its kind and its text. -/
theorem look_bind {f : Token → Parser α}
    (hf : ∀ x y : Token, x.content = y.content → Agree Eq (f x) (f y)) :
    IgnoresLines (look >>= f) :=
  agree_look.bind hf

theorem advance_bind {f : Token → Parser α}
    (hf : ∀ x y : Token, x.content = y.content → Agree Eq (f x) (f y)) :
    IgnoresLines (advance >>= f) :=
  agree_advance.bind hf

theorem ignoresLines_eat (kind : Token.Kind) : IgnoresLines (eat kind) := by
  refine look_bind fun x y hxy => ?_
  rw [Token.kind_eq hxy]
  split
  · exact advance_bind fun _ _ _ => agree_pure rfl
  · exact agree_pure rfl

theorem agree_expect (kind : Token.Kind) :
    Agree (fun x y : Token => x.content = y.content) (expect kind) (expect kind) := by
  refine agree_look.bind fun x y hxy => ?_
  rw [Token.kind_eq hxy]
  split
  · exact agree_advance
  · exact agree_expected (.token kind) hxy

/-- Both loops take tokens of the same kinds, so they are in the same round. -/
theorem ignoresLines_whileNext {begins : Token.Kind → Option γ} {round : γ → α → Parser α}
    (hb : begins .endOfInput = none) (hround : ∀ b a, IgnoresLines (round b a)) (a : α) :
    IgnoresLines (whileNext begins round a hb) := by
  intro c d hcd
  induction hn : c.remaining using Nat.strongRecOn generalizing a c d with
  | ind n ih =>
    subst hn
    rw [whileNext_eq]
    refine agree_bind_run (agree_look c d hcd) fun x y c₁ d₁ hlook hxy hcd₁ => ?_
    cases hlook
    rw [← Token.kind_eq hxy]
    cases hk : begins c.lookahead.kind with
    | none => exact agree_pure rfl c d₁ hcd₁
    | some b =>
      have hkind : c.lookahead.kind ≠ .endOfInput := by
        intro h
        rw [h, hb] at hk
        cases hk
      refine agree_bind_run (agree_advance c d₁ hcd₁) fun _ _ c₂ d₂ ha _ hcd₂ => ?_
      refine agree_bind_run (hround b a c₂ d₂ hcd₂) fun a' b' c₃ d₃ hr hab hcd₃ => ?_
      subst hab
      have := remaining_lt_of_advance hkind ha
      have := remaining_le_of_done hr
      exact ih c₃.remaining (by omega) a' c₃ d₃ hcd₃ rfl

namespace IgnoresLines

theorem separatedBy {item : Parser α} (h : IgnoresLines item) (mark : Token.Kind)
    (hm : mark ≠ .endOfInput) : IgnoresLines (separatedBy mark item hm) := by
  refine h.bind fun first => bind ?_ fun found => agree_pure rfl
  exact ignoresLines_whileNext _ (fun _ found => h.bind fun _ => agree_pure rfl) _

theorem leaf (build : String → Tree) : IgnoresLines (leaf build) :=
  advance_bind fun x y hxy => by
    rw [Token.text_eq hxy]
    exact agree_pure rfl

theorem nameTest (first : String) : IgnoresLines (nameTest first) := by
  refine (ignoresLines_eat .colon).bind fun qualified => ?_
  split
  · refine (agree_expect .name).bind fun x y hxy => ?_
    rw [Token.text_eq hxy]
    exact agree_pure rfl
  · exact agree_pure rfl

theorem nodeTest : IgnoresLines nodeTest := by
  refine look_bind fun x y hxy => ?_
  rw [Token.kind_eq hxy]
  split
  · refine advance_bind fun x y hxy => ?_
    rw [Token.text_eq hxy]
    exact nameTest _
  · refine advance_bind fun x y hxy => ?_
    rw [Token.text_eq hxy]
    exact agree_pure rfl
  · exact agree_expected .nodeTest hxy

variable (limits : Limits)

theorem grow (tree : Tree) (below : Nat) : IgnoresLines (grow limits tree below) := by
  unfold Parser.grow
  split
  · exact ignoresLines_tooDeep _
  · exact agree_pure rfl

theorem chain (l : Level) {operand : Parser Subtree} (h : IgnoresLines operand) :
    IgnoresLines (chain limits l operand) :=
  h.bind fun first =>
    ignoresLines_whileNext _ (fun _ _ => h.bind fun _ => grow limits _ _) first

theorem pathOver (parts : List Subtree) : IgnoresLines (pathOver limits parts) := by
  unfold Parser.pathOver
  split
  · exact agree_pure rfl
  · exact grow limits _ _

section

variable {expression : Parser Subtree} (h : IgnoresLines expression)

include h

theorem arguments : IgnoresLines (arguments expression) := by
  refine look_bind fun x y hxy => ?_
  rw [Token.kind_eq hxy]
  split
  · exact agree_pure rfl
  · exact h.separatedBy _ _

theorem plainStep : IgnoresLines (plainStep limits expression) := by
  refine look_bind fun x y hxy => ?_
  rw [Token.kind_eq hxy]
  split
  · refine advance_bind fun x y hxy => ?_
    rw [Token.text_eq hxy]
    refine (ignoresLines_eat .openParen).bind fun called => ?_
    split
    · refine (arguments h).bind fun parts => ?_
      exact (agree_expect .closeParen).bind fun _ _ _ => grow limits _ _
    · exact (nameTest _).bind fun test => grow limits _ _
  · refine advance_bind fun x y hxy => ?_
    rw [Token.text_eq hxy]
    exact grow limits _ _
  · refine advance_bind fun x y hxy => ?_
    rw [Token.text_eq hxy]
    dsimp only
    split
    · exact agree_reject rfl
    · exact nodeTest.bind fun test => grow limits _ _
  · exact agree_expected .step hxy

theorem predicates (step : Subtree) : IgnoresLines (predicates limits expression step) := by
  refine ignoresLines_whileNext _ (fun _ base => ?_) step
  exact h.bind fun filter => (agree_expect .closeBracket).bind fun _ _ _ => grow limits _ _

theorem step : IgnoresLines (step limits expression) :=
  (plainStep limits h).bind (predicates limits h)

theorem steps : IgnoresLines (steps limits expression) :=
  (step limits h).separatedBy _ _

theorem relativePath : IgnoresLines (relativePath limits expression) :=
  (steps limits h).bind (pathOver limits)

theorem absolutePath : IgnoresLines (absolutePath limits expression) := by
  refine (agree_expect .slash).bind fun _ _ _ => look_bind fun x y hxy => ?_
  rw [Token.kind_eq hxy]
  split
  · exact (steps limits h).bind fun parts => grow limits _ _
  · exact grow limits _ _

theorem member : IgnoresLines (member limits expression) := by
  refine look_bind fun x y hxy => ?_
  rw [Token.kind_eq hxy]
  split
  · exact relativePath limits h
  · exact relativePath limits h
  · exact relativePath limits h
  · exact absolutePath limits h
  · exact leaf _
  · exact leaf _
  · exact leaf _
  · exact leaf _
  · refine advance_bind fun _ _ _ => h.bind fun inner => ?_
    exact (agree_expect .closeParen).bind fun _ _ _ => agree_pure rfl
  · exact agree_expected .expression hxy

end

section

variable {inside : Entry → Parser Subtree} (h : ∀ entry, IgnoresLines (inside entry))

include h

theorem product : IgnoresLines (product limits inside) := by
  refine (chain limits .union (member limits (h .expression))).bind fun left => ?_
  refine look_bind fun x y hxy => ?_
  rw [Token.kind_eq hxy]
  split
  · exact agree_pure rfl
  · exact advance_bind fun _ _ _ => (h .product).bind fun right => grow limits _ _

theorem ladder : IgnoresLines (ladder limits inside) := by
  unfold Parser.ladder
  induction looseLevels with
  | nil => exact product limits h
  | cons l levels ih => exact chain limits l ih

end

theorem entered (inner : Nat) (entry : Entry) : IgnoresLines (entered limits inner entry) := by
  induction inner generalizing entry with
  | zero => exact ignoresLines_tooDeep _
  | succ inner ih =>
    cases entry with
    | expression => exact ladder limits ih
    | product => exact product limits ih

theorem sentence : IgnoresLines (sentence limits) := by
  refine (entered limits limits.nesting .expression).bind fun whole => look_bind fun x y hxy => ?_
  rw [Token.kind_eq hxy]
  split
  · exact agree_pure rfl
  · exact agree_reject (by rw [SyntaxFault.message, SyntaxFault.message, Token.describe_eq hxy])

theorem root : IgnoresLines (root limits) := by
  refine advance_bind fun _ _ _ => look_bind fun x y hxy => ?_
  rw [Token.kind_eq hxy]
  split
  · exact agree_pure rfl
  · exact (sentence limits).bind fun _ => agree_pure rfl

end IgnoresLines
end Parser

/-- Sources that agree are parsed to the same tree, or to errors that agree. -/
theorem parseSource_agree (limits : Limits) {source source' : Source}
    (h : List.Forall₂ Source.Item.Agrees source source') :
    Agree (parseSource limits source) (parseSource limits source') := by
  have start : Cursor.Agrees ⟨.endOfInput, .ofSource source⟩ ⟨.endOfInput, .ofSource source'⟩ :=
    ⟨rfl, h, rfl⟩
  have runs := Parser.IgnoresLines.root limits _ _ start
  unfold parseSource
  generalize (Parser.root limits).run _ = o at runs ⊢
  generalize (Parser.root limits).run _ = o' at runs ⊢
  cases runs with
  | done htree =>
    cases htree
    exact .ok _
  | failed he => exact .error he

/-- Tokens with the same content are parsed to the same tree, or to errors that agree. -/
theorem parseSource_agree_of_content (limits : Limits) {ts us : List Token}
    (h : us.map Token.content = ts.map Token.content) :
    Agree (parseSource limits (ts.map .token)) (parseSource limits (us.map .token)) := by
  have same : List.Forall₂ (· = ·) (ts.map Token.content) (us.map Token.content) := by
    rw [List.forall₂_eq_eq_eq]
    exact h.symm
  rw [List.forall₂_map_left_iff, List.forall₂_map_right_iff] at same
  apply parseSource_agree
  rw [List.forall₂_map_left_iff, List.forall₂_map_right_iff]
  exact same.imp fun _ _ => .token

end XPathSyntax
