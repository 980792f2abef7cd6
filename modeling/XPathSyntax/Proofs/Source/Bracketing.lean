import XPathSyntax.Proofs.Grammar.Charge
import XPathSyntax.Proofs.Lexeme.Closing
import XPathSyntax.Proofs.Source.Contents
import XPathSyntax.Proofs.Tree.Grouped

/-! Parsing is compositional under bracketing. Behind an opening mark a text is read as at its
beginning, and in front of a closing mark as at its end, because an expression leaves no parenthesis
open. So the tokens of a text that is put in brackets are those of the text, and derive the same
tree inside them. -/

namespace XPathSyntax

open Grammar (Derives DerivesAll)
open Lexeme (AxisMark Stands bare carrying closers isBlank mark?)
open Text (Stops stops_cons)
open Token (content ofKind)

namespace Source

variable {afterOperand : Bool} {c : Char} {kind : Token.Kind} {chars chars' rest : List Char}
  {contents contents' more : List (Token.Kind × Option String)} {ts : List Token} {t : Tree}
  {n : Nat}

/-- A closing mark behind a text comes behind its tokens, unless they end with an open
parenthesis. -/
theorem Yields.closed (h : Yields afterOperand chars contents)
    (hlast : ∀ x ∈ contents.getLast?, x.1 ≠ .openParen) (hc : c ∈ closers)
    (hm : mark? c = some kind) (hrest : Yields kind.endsOperand rest more) :
    Yields afterOperand (chars ++ c :: rest) (contents ++ (kind, none) :: more) := by
  induction h with
  | blank hblanks => exact (hrest.behind_mark hm).behind_blanks hblanks
  | @lexeme _ blanks l after contents hblanks hl h ih =>
    have last : ∀ x ∈ contents.getLast?, x.1 ≠ .openParen := by
      intro x hx
      apply hlast
      rw [Option.mem_def] at hx
      rw [List.getLast?_append, hx]
      rfl
    have hopen : ∀ inner, after.dropWhile isBlank = '(' :: inner →
        ¬∀ d ∈ inner, isBlank d = true := by
      intro inner hafter hinner
      obtain ⟨others, rfl, hothers⟩ := h.mark_inv hafter rfl
      obtain rfl := hothers.eq_nil (List.dropWhile_eq_nil_iff.2 hinner)
      exact last _ rfl rfl
    have closed := Yields.lexeme hblanks (hl.closed hc hopen rest) (ih last)
    simpa only [List.append_assoc] using closed

/-- Between an opening and a closing mark the text yields these tokens, whatever comes behind the
closing one. -/
def Encloses (chars : List Char) (contents : List (Token.Kind × Option String)) : Prop :=
  ∀ c kind rest more, c ∈ closers → mark? c = some kind → Yields kind.endsOperand rest more →
    Yields false (chars ++ c :: rest) (contents ++ (kind, none) :: more)

theorem Yields.encloses (h : Yields false chars (ts.map content))
    (hd : Derives .expression ts t n) : Encloses chars (ts.map content) := by
  refine fun c kind rest more hc hm hrest => h.closed ?_ hc hm hrest
  obtain ⟨init, x, rfl, hx⟩ := hd.joined.ends
  intro y hy
  obtain rfl : x.content = y := by simpa using hy
  rintro hopen
  rcases hx with hx | hx <;> rw [show x.kind = .openParen from hopen] at hx <;> cases hx

/-- A text behind another one and a comma. -/
theorem Encloses.comma (h : Encloses chars contents) (h' : Encloses chars' contents') :
    Encloses (chars ++ ',' :: chars') (contents ++ (.comma, none) :: contents') := by
  intro c kind rest more hc hm hrest
  have both := h ',' .comma _ _ (by decide) rfl (h' c kind rest more hc hm hrest)
  simpa only [List.append_assoc, List.cons_append] using both

theorem Encloses.last (h : Encloses chars contents) (hc : c ∈ closers) (hm : mark? c = some kind) :
    Yields false (chars ++ [c]) (contents ++ [(kind, none)]) :=
  h c kind [] [] hc hm (.blank (List.forall_mem_nil _))

/-- No parentheses with an expression in them are empty. -/
theorem Encloses.emptyParens?_eq_none (h : Encloses chars (ts.map content))
    (hts : ∃ x us, ts = x :: us ∧ Grammar.begins .expression x.kind = true) :
    Lexeme.emptyParens? ('(' :: (chars ++ [')'])) = none := by
  have inside : Yields false (chars ++ [')']) (ts.map content ++ [(.closeParen, none)]) :=
    h.last (by decide) rfl
  rw [Option.eq_none_iff_forall_ne_some]
  rintro ⟨parens, after⟩ hparens
  obtain ⟨blanks, hblanks, -, heq⟩ := Lexeme.emptyParens?_eq_some hparens
  rw [(List.cons.inj heq).2] at inside
  have first : (blanks ++ ')' :: after).dropWhile isBlank = ')' :: after :=
    Lexeme.dropWhile_blanks hblanks (by decide)
  obtain ⟨more, hmore, -⟩ := inside.mark_inv first rfl
  obtain ⟨x, us, rfl, hx⟩ := hts
  have hclose : x.kind = .closeParen := congrArg Prod.fst (List.cons.inj hmore).1
  rw [hclose] at hx
  cases hx

theorem Encloses.group (h : Encloses chars (ts.map content)) (hrest : Yields true rest more) :
    Yields afterOperand ('(' :: (chars ++ ')' :: rest))
      ((Tree.inParens ts).map content ++ more) := by
  have closed : Yields Token.Kind.openParen.endsOperand (chars ++ ')' :: rest)
      (ts.map content ++ (.closeParen, none) :: more) :=
    h ')' .closeParen rest more (by decide) rfl hrest
  have group : Yields afterOperand ('(' :: (chars ++ ')' :: rest))
      ((.openParen, none) :: (ts.map content ++ (.closeParen, none) :: more)) :=
    closed.behind_mark rfl
  simpa [Tree.inParens, content, ofKind] using group

/-- Where no operand has ended, every name in front of an opening mark is just a name, unless the
mark opens empty parentheses. -/
theorem yields_name {name : List Char} (hname : Text.isName name = true)
    (hc : c = '(' ∨ c = '[') (hempty : Lexeme.emptyParens? (c :: rest) = none)
    (hrest : Yields true (c :: rest) more) :
    Yields false (name ++ c :: rest) ((.name, some (String.ofList name)) :: more) := by
  have hblank : isBlank c = false := by rcases hc with rfl | rfl <;> rfl
  have hstop : Lexeme.continuesName c = false := by rcases hc with rfl | rfl <;> rfl
  have skip : (c :: rest).dropWhile isBlank = c :: rest :=
    List.dropWhile_cons_of_neg (by simp [hblank])
  have hmark : ¬AxisMark (c :: rest) := by
    rintro ⟨others, hm⟩
    rw [skip] at hm
    rcases hc with rfl | rfl <;> cases hm
  have stands : Stands false (carrying name .name name) (c :: rest) :=
    .name hname (stops_cons hstop _) hmark rfl fun _ => by rw [skip, hempty]
  have behind : Yields (carrying name .name name).endsOperand (c :: rest) more := hrest
  exact behind.behind_lexeme stands

/-- An operator with blanks around it, in front of a group. -/
theorem Encloses.operator (h : Encloses chars (ts.map content)) (op : Operator) :
    Yields true (' ' :: (op.spelling.toList ++ ' ' :: '(' :: (chars ++ [')'])))
      ((.operator op, none) :: (Tree.inParens ts).map content) := by
  have blank : ∀ c ∈ [' '], isBlank c = true := by simp [isBlank]
  have group : Yields (bare op.spelling.toList (.operator op)).endsOperand
      (' ' :: '(' :: (chars ++ [')'])) ((Tree.inParens ts).map content ++ []) :=
    (h.group (.blank (List.forall_mem_nil _))).behind_blanks blank
  have hmark : ¬AxisMark (' ' :: '(' :: (chars ++ [')'])) := by
    rintro ⟨others, hm⟩
    cases hm
  have stands : Stands true (bare op.spelling.toList (.operator op))
      (' ' :: '(' :: (chars ++ [')'])) :=
    Lexeme.stands_operator (fun _ => rfl) (fun _ hp => stops_cons hp _) hmark
  have operator := (group.behind_lexeme stands).behind_blanks blank
  rwa [List.append_nil] at operator

end Source

section

open Source (Encloses Yields yields_name)

variable {depth height : Nat} {text text' name : String} {t t' : Tree}

theorem encloses_of_parse (h : parse ⟨depth, height⟩ text = .ok (some t)) :
    ∃ ts n, Encloses text.toList (ts.map content) ∧ Derives .expression ts t n ∧ n ≤ depth ∧
      t.charge ≤ height := by
  obtain ⟨ts, n, hyields, hd, hn, hh⟩ := parse_eq_some_iff.1 h
  exact ⟨ts, n, hyields.encloses hd, hd, hn, hh⟩

theorem parse_group (h : parse ⟨depth, height⟩ text = .ok (some t)) :
    parse ⟨depth + 1, height⟩ ("(" ++ text ++ ")") = .ok (some t) := by
  obtain ⟨ts, n, hts, hd, hn, hh⟩ := encloses_of_parse h
  refine parse_eq_some_iff.2 ⟨_, n + 1, ?_, (Tree.derives_inParens hd).expression_of_member,
    by simpa using hn, hh⟩
  simpa using hts.group (.blank (List.forall_mem_nil _))

theorem parse_binary (op : Operator) (hheight : 1 ≤ height)
    (h : parse ⟨depth, height⟩ text = .ok (some t))
    (h' : parse ⟨depth, height⟩ text' = .ok (some t')) :
    parse ⟨depth + 2, height + 1⟩ ("(" ++ text ++ ") " ++ op.spelling ++ " (" ++ text' ++ ")") =
      .ok (some (.binary op t t')) := by
  obtain ⟨ts, m, hts, hd, hm, hh⟩ := encloses_of_parse h
  obtain ⟨us, n, hus, hd', hn, hh'⟩ := encloses_of_parse h'
  obtain ⟨k, both, hk⟩ := Derives.expression_binary (o := ofKind (.operator op)) rfl
    (Tree.derives_inParens hd) (Tree.derives_inParens hd')
  refine parse_eq_some_iff.2 ⟨_, k + 1, ?_, both, by simp only; omega, ?_⟩
  · simpa [content, ofKind] using hts.group (hus.operator op)
  · have below : ∀ s ∈ [t, t'], s.charge ≤ height :=
      List.forall_mem_cons.2 ⟨hh, List.forall_mem_singleton.2 hh'⟩
    exact Tree.charge_le_of_children below hheight

theorem parse_predicate (hname : Text.isName name.toList = true)
    (h : parse ⟨depth, height⟩ text = .ok (some t)) :
    parse ⟨depth + 1, max height 2 + 1⟩ (name ++ "[" ++ text ++ "]") =
      .ok (some (.predicate (.step .child (.nameTest none name)) t)) := by
  obtain ⟨ts, n, hts, hd, hn, hh⟩ := encloses_of_parse h
  have predicate : Derives .step
      ([.carrying .name name] ++ ofKind .openBracket :: (ts ++ [ofKind .closeBracket]))
      (.predicate (.step .child (.nameTest none name)) t) (max 0 n) :=
    .predicate rfl rfl (.child (.name rfl)) hd
  refine parse_eq_some_iff.2 ⟨_, _, ?_, (Derives.lone predicate).expression_of_member,
    by simpa using hn, ?_⟩
  · have inside : Yields Token.Kind.openBracket.endsOperand _ _ :=
      hts.last (by decide : ']' ∈ closers) rfl
    simpa [content, ofKind, Token.carrying] using
      yields_name hname (.inr rfl) rfl (inside.behind_mark rfl)
  · have base : (Tree.step .child (.nameTest none name)).charge ≤ max height 2 :=
      Nat.le_trans (Tree.charge_le _) (Nat.le_max_right height 2)
    have filter := Nat.le_trans hh (Nat.le_max_left height 2)
    have below : ∀ s ∈ [_, t], s.charge ≤ max height 2 :=
      List.forall_mem_cons.2 ⟨base, List.forall_mem_singleton.2 filter⟩
    exact Tree.charge_le_of_children below (by omega)

/-- Texts with commas between them. -/
theorem encloses_arguments {texts : List String} {trees : List Tree} (hne : texts ≠ [])
    (h : List.Forall₂ (fun text t => parse ⟨depth, height⟩ text = .ok (some t)) texts trees) :
    ∃ ts n, Encloses ([','].intercalate (texts.map String.toList)) (ts.map content) ∧
      DerivesAll .expression .comma ts trees n ∧ n ≤ depth ∧ ∀ t ∈ trees, t.charge ≤ height := by
  induction h with
  | nil => exact absurd rfl hne
  | @cons text t texts trees h hs ih =>
    obtain ⟨ts, m, hts, hd, hm, hh⟩ := encloses_of_parse h
    cases texts with
    | nil =>
      cases hs
      refine ⟨ts, m, ?_, .one hd, hm, by simpa using hh⟩
      simpa using hts
    | cons text' texts =>
      obtain ⟨us, n, hus, hds, hn, hhs⟩ := ih (by simp)
      refine ⟨ts ++ ofKind .comma :: us, max m n, ?_, .more rfl hd hds, by omega, ?_⟩
      · simpa [content, ofKind] using hts.comma hus
      · exact List.forall_mem_cons.2 ⟨hh, hhs⟩

theorem parse_call (hname : Text.isName name.toList = true) (hheight : 1 ≤ height)
    {texts : List String} {trees : List Tree} (hne : texts ≠ [])
    (h : List.Forall₂ (fun text t => parse ⟨depth, height⟩ text = .ok (some t)) texts trees) :
    parse ⟨depth + 1, height + 1⟩ (name ++ "(" ++ ",".intercalate texts ++ ")") =
      .ok (some (.call name trees)) := by
  obtain ⟨ts, n, hts, hds, hn, hh⟩ := encloses_arguments hne h
  have call : Derives .step
      (.carrying .name name :: ofKind .openParen :: (ts ++ [ofKind .closeParen]))
      (.call name trees) n :=
    .call rfl rfl rfl hds
  refine parse_eq_some_iff.2 ⟨_, _, ?_, (Derives.lone call).expression_of_member,
    by simpa using hn, ?_⟩
  · have inside : Yields Token.Kind.openParen.endsOperand _ _ :=
      hts.last (by decide : ')' ∈ closers) rfl
    simpa [content, ofKind, Token.carrying] using
      yields_name hname (.inl rfl) (hts.emptyParens?_eq_none hds.begins) (inside.behind_mark rfl)
  · exact Tree.charge_le_of_children hh hheight

/-- Texts that are parsed within some limits are parsed to the same trees in brackets, within limits
that are so much higher: in parentheses, which leave the tree as it is; in parentheses on both sides
of an operator; as the predicate of a name; and as the arguments of a call. Every name will do. -/
theorem parses_in_brackets (depth height : Nat) (hheight : 1 ≤ height) :
    (∀ text t, parse ⟨depth, height⟩ text = .ok (some t) →
      parse ⟨depth + 1, height⟩ ("(" ++ text ++ ")") = .ok (some t)) ∧
    (∀ (op : Operator) text text' t t', parse ⟨depth, height⟩ text = .ok (some t) →
      parse ⟨depth, height⟩ text' = .ok (some t') →
      parse ⟨depth + 2, height + 1⟩
          ("(" ++ text ++ ") " ++ op.spelling ++ " (" ++ text' ++ ")") =
        .ok (some (.binary op t t'))) ∧
    (∀ (name : String) text t, Text.isName name.toList = true →
      parse ⟨depth, height⟩ text = .ok (some t) →
      parse ⟨depth + 1, max height 2 + 1⟩ (name ++ "[" ++ text ++ "]") =
        .ok (some (.predicate (.step .child (.nameTest none name)) t))) ∧
    ∀ (name : String) texts trees, Text.isName name.toList = true → texts ≠ [] →
      List.Forall₂ (fun text t => parse ⟨depth, height⟩ text = .ok (some t)) texts trees →
      parse ⟨depth + 1, height + 1⟩ (name ++ "(" ++ ",".intercalate texts ++ ")") =
        .ok (some (.call name trees)) :=
  ⟨fun _ _ => parse_group, fun op _ _ _ _ => parse_binary op hheight,
    fun _ _ _ => parse_predicate, fun _ _ _ hname => parse_call hname hheight⟩

/-- A function that is named like a node type, with a name like an operator and a number for its
arguments. -/
theorem parses_in_brackets_of_call :
    let trees : List Tree := [.step .child (.nameTest none "div"), .integer "-1"]
    1 ≤ 2 ∧ parse ⟨2, 3⟩ "text(div,-1)" = .ok (some (.call "text" trees)) ∧
      parse ⟨1, 2⟩ "text(div,-1)" = .error (.tooDeep 1 1) := by
  intro trees
  have arguments : List.Forall₂ (fun text t => parse ⟨1, 2⟩ text = .ok (some t)) ["div", "-1"]
      trees :=
    .cons (by decide +kernel) (.cons (by decide +kernel) .nil)
  have htext : "text" ++ "(" ++ ",".intercalate ["div", "-1"] ++ ")" = "text(div,-1)" := by
    decide +kernel
  obtain ⟨-, -, -, call⟩ := parses_in_brackets 1 2 (by decide)
  refine ⟨by decide, ?_, by decide +kernel⟩
  rw [← htext]
  exact call "text" _ trees (by decide) (by simp) arguments

end
end XPathSyntax
