import XPathSyntax.Proofs.Lexeme.Layout
import XPathSyntax.Proofs.Parser.Agreement
import XPathSyntax.Proofs.Source.Spelled

/-! Layout does not matter. Texts that differ in their layout only have the same lexemes, one after
another, so they give the same tokens, up to their lines; and they give them on the same lines if
the layout has the same lines. -/

namespace XPathSyntax

open Text (Gaps Relaid Respaced Trimmed)

namespace Source

open Lexeme (Fails isBlank)

variable {sameLines : Prop} {afterOperand : Bool} {chars chars' : List Char}

theorem lineAfter_congr (line : Nat) (h : chars.count '\n' = chars'.count '\n') :
    lineAfter line chars = lineAfter line chars' := by
  rw [lineAfter, lineAfter, h]

theorem items_agree {l l' : Lexeme} (h : l'.tokens = l.tokens) (line line' : Nat) :
    List.Forall₂ Item.Agrees (l.items line) (l'.items line') := by
  rw [Lexeme.items, Lexeme.items, h, List.forall₂_map_left_iff, List.forall₂_map_right_iff,
    List.forall₂_same]
  exact fun _ _ => .token rfl

/-- The items of both texts agree. On the same lines they are the same. -/
theorem ofChars_agree (line line' : Nat) (h : Trimmed sameLines chars chars') :
    List.Forall₂ Item.Agrees (ofChars line afterOperand chars)
        (ofChars line' afterOperand chars') ∧
      (sameLines → line = line' →
        ofChars line afterOperand chars = ofChars line' afterOperand chars') := by
  induction afterOperand, chars using lexeme_induction generalizing line line' chars' with
  | blank afterOperand chars hchars =>
    rw [ofChars_of_blank hchars, ofChars_of_blank (h.dropWhile_eq_nil hchars)]
    exact ⟨.nil, fun _ _ => rfl⟩
  | fault afterOperand chars c rest fault hchars hread =>
    obtain ⟨body, lines⟩ := h
    have stop := Text.stops_dropWhile isBlank chars
    rw [hchars] at body lines stop
    have hfails := (Lexeme.fails_of_read hread).respaced stop body
    obtain ⟨c', rest', hchars'⟩ := List.exists_cons_of_ne_nil hfails.ne_nil
    rw [hchars'] at hfails
    rw [ofChars_of_fault hchars hread, ofChars_of_fault hchars' (Lexeme.read_of_fails hfails)]
    refine ⟨.cons (.failure (.lexical rfl)) .nil, ?_⟩
    rintro hl rfl
    rw [lineAfter_congr _ (lines hl (List.cons_ne_nil _ _))]
  | lexeme afterOperand chars c rest l after hchars hread ih =>
    obtain ⟨body, lines⟩ := h
    obtain ⟨hstands, htext⟩ := Lexeme.read_eq_ok_iff.1 hread
    rw [hchars] at body lines
    rw [← htext] at body
    obtain ⟨l', after', htext', hstands', htokens, hlines, hafter⟩ := hstands.respaced body
    obtain ⟨c', rest', hc'⟩ := hstands'.exists_cons
    have hends : l'.endsOperand = l.endsOperand := by
      rw [Lexeme.endsOperand, htokens]
      rfl
    rw [ofChars_of_lexeme hchars hread,
      ofChars_of_lexeme (htext'.trans hc') (Lexeme.read_of_stands hstands' hc'), hends]
    refine ⟨List.rel_append (items_agree htokens _ _) (ih _ _ hafter.trim).1, ?_⟩
    rintro hl rfl
    have begins := lines hl (List.cons_ne_nil _ _)
    have ends : (chars.takeWhile isBlank ++ l.text).count '\n' =
        (chars'.takeWhile isBlank ++ l'.text).count '\n' := by
      rw [List.count_append, List.count_append, begins, hlines hl]
    have items (line : Nat) : l'.items line = l.items line := by
      rw [Lexeme.items, htokens]
      rfl
    rw [(ih _ _ hafter.trim).2 hl (lineAfter_congr line ends), lineAfter_congr line begins, items]

end Source

/-- Texts that differ in their layout only are parsed to the same tree, or to errors that differ at
most in their lines, and not even there if the layout has the same lines. -/
theorem layout_does_not_matter {sameLines : Prop} {text text' : String}
    (h : Relaid sameLines text.toList text'.toList) (limits : Limits) :
    Agree (parse limits text) (parse limits text') ∧
      (sameLines → parse limits text = parse limits text') := by
  obtain ⟨agrees, same⟩ := @Source.ofChars_agree _ false _ _ 1 1 h.trim
  refine ⟨parseSource_agree limits agrees, fun hl => ?_⟩
  exact congrArg (parseSource limits) (same hl rfl)

/-- The blanks are others, also inside the node type test, but the lines are the same: the bracket
is missed on the second. -/
theorem layout_does_not_matter_in_predicate :
    let text := "a\n[text\t( )='x  y' "
    let text' := " a \n[text (\r)='x  y'\n"
    Relaid True text.toList text'.toList ∧
      parse ⟨9, 9⟩ text' =
        .error (.syntactic (.expected (.token .closeBracket) .endOfInput) 2) := by
  intro text text'
  have htext : text.toList = [] ++ 'a' :: (['\n'] ++ '[' :: 't' :: 'e' :: 'x' :: 't' ::
      (['\t'] ++ '(' :: ([' '] ++ ')' :: '=' :: '\'' ::
        (['x', ' ', ' ', 'y'] ++ '\'' :: [' '])))) := by decide +kernel
  have htext' : text'.toList = [' '] ++ 'a' :: ([' ', '\n'] ++ '[' :: 't' :: 'e' :: 'x' :: 't' ::
      ([' '] ++ '(' :: (['\r'] ++ ')' :: '=' :: '\'' ::
        (['x', ' ', ' ', 'y'] ++ '\'' :: ['\n'])))) := by decide +kernel
  have gaps {b b' : List Char} (hb : b.all Lexeme.isBlank = true)
      (hb' : b'.all Lexeme.isBlank = true) (hlines : b.count '\n' = b'.count '\n') :
      Gaps True b b' := ⟨List.all_eq_true.1 hb, List.all_eq_true.1 hb', fun _ => hlines⟩
  have literal : Respaced True ('\'' :: (['x', ' ', ' ', 'y'] ++ '\'' :: [' ']))
      ('\'' :: (['x', ' ', ' ', 'y'] ++ '\'' :: ['\n'])) :=
    .literal rfl (by simp) (.ending (List.all_eq_true.1 rfl) (List.all_eq_true.1 rfl))
  have h : Relaid True text.toList text'.toList := by
    rw [htext, htext']
    refine .start (gaps rfl rfl rfl) (.plain rfl ?_)
    refine .gap (gaps rfl rfl rfl) (by simp) (by simp) (.plain rfl ?_)
    refine .plain rfl (.plain rfl (.plain rfl (.plain rfl ?_)))
    refine .gap (gaps rfl rfl rfl) (by simp) (by simp) (.plain rfl ?_)
    refine .gap (gaps rfl rfl rfl) (by simp) (by simp) (.plain rfl ?_)
    exact .plain rfl literal
  refine ⟨h, ?_⟩
  rw [← (layout_does_not_matter h ⟨9, 9⟩).2 trivial]
  decide +kernel

end XPathSyntax
