import Mathlib.Data.List.TakeWhile
import XPathSyntax.Proofs.Lexeme.Reading
import XPathSyntax.Proofs.Source.Tokens
import XPathSyntax.Proofs.Token.Legible
import XPathSyntax.Source.OfText

/-! Texts give legible tokens. Every lexeme gives tokens that are legible in front of those of the
rest of the text, so all tokens of a text are; behind them the text has ended or has a fault. A text
that gives nothing is blank. -/

namespace XPathSyntax

open Token (AllLegible EmptyParens)

namespace Lexeme

def tokensOn (l : Lexeme) (line : Nat) : List Token :=
  l.tokens.map fun (kind, value) => ⟨kind, value, some line⟩

variable {afterOperand : Bool} {l : Lexeme} {rest : List Char} {ts : List Token}

theorem items_eq (l : Lexeme) (line : Nat) : l.items line = (l.tokensOn line).map .token := by
  simp [items, tokensOn]

theorem sign_of_head {sign number : List Char} (hs : Sign afterOperand sign)
    (hb : beginsNumber number = true) (h : (sign ++ number).head? = some '-') :
    afterOperand = false := by
  rcases hs with rfl | ⟨-, hao⟩
  · obtain ⟨tail, rfl⟩ := List.head?_eq_some_iff.1 h
    cases hb
  · exact hao

theorem Sign.weaken {sign : List Char} (hs : Sign afterOperand sign) : sign = [] ∨ sign = ['-'] :=
  hs.imp_right And.left

/-- A lexeme gives legible tokens if those behind it are legible. -/
theorem Stands.allLegible (h : Stands afterOperand l rest) (line : Nat)
    (hts : AllLegible l.endsOperand ts)
    (hparens : EmptyParens ts → emptyParens? (rest.dropWhile isBlank) ≠ none) :
    AllLegible afterOperand (l.tokensOn line ++ ts) := by
  -- the text of a token is that of the lexeme
  have text {kind : Token.Kind} {value : List Char} :
      (⟨kind, some (String.ofList value), some line⟩ : Token).text.toList = value :=
    String.toList_ofList
  have node : "node" ∈ nodeTypes := by decide
  cases h with
  | mark hm =>
    unfold mark? at hm
    split at hm
    all_goals cases hm
    all_goals exact ⟨⟨rfl, by simp [Operator.needsOperand, Operator.isWord]⟩, hts⟩
  | slash | colon => exact ⟨⟨rfl, trivial⟩, hts⟩
  | minus | unequal | atMost | less | atLeast | greater =>
    exact ⟨⟨rfl, by simp [Operator.needsOperand, Operator.isWord]⟩, hts⟩
  | times hao => exact ⟨⟨rfl, fun _ => hao⟩, hts⟩
  | word hao => exact ⟨⟨rfl, fun _ => hao⟩, hts⟩
  | attributes => exact ⟨⟨rfl, .attributes, rfl⟩, hts⟩
  | axis => exact ⟨⟨rfl, _, rfl⟩, hts⟩
  | slashes => exact ⟨⟨rfl, trivial⟩, ⟨rfl, .descendantOrSelf, rfl⟩, hts⟩
  | parent => exact ⟨⟨rfl, .parent, rfl⟩, ⟨rfl, node⟩, hts⟩
  | self => exact ⟨⟨rfl, .self, rfl⟩, ⟨rfl, node⟩, hts⟩
  | star hao =>
    subst hao
    have hname : Text.isNameOrStar (String.ofList ['*']) = true := by decide
    have hnot : String.ofList ['*'] ∉ nodeTypes := by decide
    exact ⟨⟨rfl, hname, fun _ => rfl, rfl, fun hmem => absurd hmem hnot⟩, hts⟩
  | integer hs hne hd =>
    refine ⟨⟨rfl, ?_, ?_⟩, hts⟩
    · rw [text]
      exact Text.isInteger_iff.2 ⟨_, _, hs.weaken, hne, hd, rfl⟩
    · rw [text]
      exact sign_of_head hs (by simpa using @beginsNumber_append [] _ hne hd)
  | decimal hs hne hw hf =>
    refine ⟨⟨rfl, ?_, ?_⟩, hts⟩
    · rw [text]
      exact Text.isDecimal_iff.2 ⟨_, _, _, hs.weaken, hne, hw, hf, rfl⟩
    · rw [text, List.append_assoc]
      exact sign_of_head hs (by simpa using @beginsNumber_decimal [] _ _ hne hw hf)
  | @literal quote content _ hq hn =>
    refine ⟨⟨rfl, ?_⟩, hts⟩
    rw [text]
    rcases hq with rfl | rfl
    · simp [Text.isLiteral, hn]
    · simp [Text.isLiteral, hn]
  | reference hname =>
    refine ⟨⟨rfl, ?_⟩, hts⟩
    rw [text]
    exact Text.isReference_iff.2 (.inl hname)
  | qualifiedReference hq hname =>
    refine ⟨⟨rfl, ?_⟩, hts⟩
    rw [text]
    exact Text.isReference_iff.2 (.inr ⟨_, _, hq, hname, rfl⟩)
  | nodeType hn => exact ⟨⟨rfl, hn⟩, hts⟩
  | @name name _ hname _ _ hop hempty =>
    refine ⟨⟨rfl, ?_, ?_, hop, ?_⟩, hts⟩
    · simp only [Text.isNameOrStar, text, hname, Bool.true_or]
    · intro hstar
      have hstar := congrArg String.toList hstar
      rw [text] at hstar
      rw [hstar] at hname
      cases hname
    · intro hmem he
      exact hparens he (hempty hmem)

theorem Stands.tokens_ne_nil (h : Stands afterOperand l rest) : l.tokens ≠ [] := by
  cases h with
  | _ => exact List.cons_ne_nil _ _

/-- Parentheses give the only tokens that are parentheses. -/
theorem Stands.eq_of_paren (h : Stands afterOperand l rest) {line : Nat} {t : Token}
    (ht : (l.tokensOn line ++ ts).head? = some t)
    (hk : t.kind = .openParen ∨ t.kind = .closeParen) :
    ∃ c, mark? c = some t.kind ∧ l = bare [c] t.kind := by
  cases h with
  | mark hm =>
    cases ht
    exact ⟨_, hm, rfl⟩
  | _ =>
    cases ht
    rcases hk with hk | hk <;> cases hk

theorem eq_of_mark_openParen {c : Char} (h : mark? c = some .openParen) : c = '(' := by
  unfold mark? at h
  split at h
  all_goals first | rfl | cases h

theorem eq_of_mark_closeParen {c : Char} (h : mark? c = some .closeParen) : c = ')' := by
  unfold mark? at h
  split at h
  all_goals first | rfl | cases h

end Lexeme

namespace Source

open Lexeme (isBlank emptyParens? Stands)

structure Tells (afterOperand : Bool) (chars : List Char) (ts : List Token) : Prop where
  legible : AllLegible afterOperand ts
  closeParen : ∀ t, ts.head? = some t → t.kind = .closeParen →
    ∃ rest, chars.dropWhile isBlank = ')' :: rest
  emptyParens : EmptyParens ts → emptyParens? (chars.dropWhile isBlank) ≠ none

theorem Tells.nil (afterOperand : Bool) (chars : List Char) : Tells afterOperand chars [] where
  legible := trivial
  closeParen := by simp
  emptyParens h := by simp [EmptyParens] at h

/-- One more lexeme in front. -/
theorem Tells.lexeme {afterOperand : Bool} {chars rest after : List Char} {c : Char}
    {l : Lexeme} {ts : List Token} (hchars : chars.dropWhile isBlank = c :: rest)
    (hread : Lexeme.read afterOperand c rest = .ok (l, after)) (line : Nat)
    (h : Tells l.endsOperand after ts) : Tells afterOperand chars (l.tokensOn line ++ ts) := by
  obtain ⟨hstands, htext⟩ := Lexeme.read_eq_ok_iff.1 hread
  refine ⟨hstands.allLegible line h.legible h.emptyParens, ?_, ?_⟩
  · intro t ht hk
    obtain ⟨d, hmark, rfl⟩ := hstands.eq_of_paren ht (.inr hk)
    rw [hk] at hmark
    obtain rfl : d = c := (List.cons.inj htext).1
    exact ⟨rest, by rw [hchars, Lexeme.eq_of_mark_closeParen hmark]⟩
  · rintro ⟨o, p, more, heq, ho, hp⟩
    obtain ⟨d, hmark, rfl⟩ := hstands.eq_of_paren (by rw [heq]; rfl) (.inl ho)
    rw [ho] at hmark
    obtain ⟨rfl, rfl⟩ : d = c ∧ after = rest := List.cons.inj htext
    obtain rfl : ts = p :: more := (List.cons.inj heq).2
    obtain ⟨inner, hinner⟩ := h.closeParen p rfl hp
    rw [hchars, Lexeme.eq_of_mark_openParen hmark]
    simp [emptyParens?, hinner]

/-- All tokens of a text are legible, and nothing but a fault can come behind them. -/
theorem tells_ofChars (line : Nat) (afterOperand : Bool) (chars : List Char) :
    ∃ ts more, ofChars line afterOperand chars = ts.map .token ++ more ∧ Cursor.Closed more ∧
      Tells afterOperand chars ts := by
  induction afterOperand, chars using lexeme_induction generalizing line with
  | blank afterOperand chars hchars =>
    exact ⟨[], [], by rw [ofChars_of_blank hchars]; rfl, .inl rfl, .nil afterOperand chars⟩
  | fault afterOperand chars c rest fault hchars hread =>
    exact ⟨[], _, by rw [ofChars_of_fault hchars hread]; rfl, .inr ⟨_, [], rfl⟩,
      .nil afterOperand chars⟩
  | lexeme afterOperand chars c rest l after hchars hread ih =>
    obtain ⟨ts, more, hts, hmore, htells⟩ := ih (lineAfter line (chars.takeWhile isBlank ++ l.text))
    refine ⟨_, more, ?_, hmore,
      htells.lexeme hchars hread (lineAfter line (chars.takeWhile isBlank))⟩
    rw [ofChars_of_lexeme hchars hread, hts, Lexeme.items_eq, List.map_append,
      List.append_assoc]

theorem ofChars_eq_nil_iff {line : Nat} {afterOperand : Bool} {chars : List Char} :
    ofChars line afterOperand chars = [] ↔ chars.dropWhile isBlank = [] := by
  refine ⟨?_, ofChars_of_blank⟩
  intro h
  cases hchars : chars.dropWhile isBlank with
  | nil => rfl
  | cons c rest =>
    cases hread : Lexeme.read afterOperand c rest with
    | error fault =>
      rw [ofChars_of_fault hchars hread] at h
      cases h
    | ok reading =>
      rw [ofChars_of_lexeme hchars hread, List.append_eq_nil_iff, Lexeme.items,
        List.map_eq_nil_iff] at h
      exact absurd h.1 (Lexeme.read_eq_ok_iff.1 hread).1.tokens_ne_nil

end Source

/-- Blank texts, and no others, have neither a tree nor an error. -/
theorem parse_eq_none_iff {limits : Limits} {text : String} :
    parse limits text = .ok none ↔ text.toList.all Lexeme.isBlank = true := by
  have blank : text.toList.all Lexeme.isBlank = true ↔ Source.ofText text = [] := by
    rw [Source.ofText, Source.ofChars_eq_nil_iff, List.dropWhile_eq_nil_iff, List.all_eq_true]
  rw [blank, parse]
  constructor
  · obtain ⟨ts, more, hts, hmore, tells⟩ := Source.tells_ofChars 1 false text.toList
    rw [Source.ofText, hts]
    intro h
    cases ts with
    | nil =>
      rcases hmore with rfl | ⟨error, rest, rfl⟩
      · rfl
      · cases h
    | cons x xs =>
      have hx := tells.legible.kind_ne_endOfInput x List.mem_cons_self
      rw [parseSource_cons limits hx] at h
      cases hresult : ((Parser.sentence limits).run (.first x xs more)).result with
      | error => rw [hresult] at h; cases h
      | ok => rw [hresult] at h; cases h
  · intro h
    rw [h]
    rfl

end XPathSyntax
