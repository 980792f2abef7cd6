import XPathSyntax.Proofs.Grammar.Adjacency
import XPathSyntax.Proofs.Source.Legible

/-! Looking back one token. The same text can be read in several ways: at every lexeme one may say
that an operand has ended or that none has, and this decides what `*`, the operator names and a
minus before a number spell. What an expression allows side by side settles the question
everywhere but behind a slash, so looking back at one token loses no expression but there. -/

namespace XPathSyntax

open Grammar (Sentence)

namespace Lexeme

/-- A piece of a text, with what is left of the text, once as an operator and once as an operand or
the beginning of one. -/
inductive Ambiguous : Lexeme × List Char → Lexeme × List Char → Prop where
  | star {rest} :
      Ambiguous (bare ['*'] (.operator .times), rest) (carrying ['*'] .name ['*'], rest)
  | word {op : Operator} {rest} : op.isWord = true →
      Ambiguous (bare op.spelling.toList (.operator op), rest)
        (carrying op.spelling.toList .name op.spelling.toList, rest)
  | sign {rest} : beginsNumber rest = true →
      Ambiguous (bare ['-'] (.operator .minus), rest) (readNumber ['-'] rest)

variable {l : Lexeme} {c : Char} {rest : List Char} {r r' : Lexeme × List Char}

/-- What stands behind an operand stands elsewhere too, or something else does. -/
theorem Stands.elsewhere (h : Stands true l rest) :
    Stands false l rest ∨ ∃ r : Lexeme × List Char, Stands false r.1 r.2 ∧
      r.1.text ++ r.2 = l.text ++ rest ∧ Ambiguous (l, rest) r := by
  have unsigned {sign : List Char} (hs : Sign true sign) : Sign false sign := by
    rcases hs with hs | ⟨-, hs⟩
    · exact .inl hs
    · cases hs
  cases h with
  | mark hm => exact .inl (.mark hm)
  | attributes => exact .inl .attributes
  | slashes => exact .inl .slashes
  | slash hs => exact .inl (.slash hs)
  | times => exact .inr ⟨_, .star rfl, rfl, .star⟩
  | star hao => cases hao
  | minus =>
    by_cases hb : beginsNumber rest = true
    · exact .inr ⟨_, stands_of_readNumber (.inr ⟨rfl, rfl⟩) hb rfl, readNumber_append rfl, .sign hb⟩
    · exact .inl (.minus fun _ => by simpa using hb)
  | integer hs hne hd hstop => exact .inl (.integer (unsigned hs) hne hd hstop)
  | decimal hs hne hw hf hstop => exact .inl (.decimal (unsigned hs) hne hw hf hstop)
  | parent => exact .inl .parent
  | self hs => exact .inl (.self hs)
  | colon hs => exact .inl (.colon hs)
  | unequal => exact .inl .unequal
  | atMost => exact .inl .atMost
  | less hs => exact .inl (.less hs)
  | atLeast => exact .inl .atLeast
  | greater hs => exact .inl (.greater hs)
  | literal hq hn => exact .inl (.literal hq hn)
  | reference hname hstop hcolon => exact .inl (.reference hname hstop hcolon)
  | qualifiedReference hq hname hstop => exact .inl (.qualifiedReference hq hname hstop)
  | axis hb => exact .inl (.axis hb)
  | @word op _ _ hop hstop hmark =>
    have hnot : String.ofList op.spelling.toList ∉ nodeTypes := by
      rw [String.ofList_toList]
      cases op with
      | and | or | div | mod => decide
      | _ => cases hop
    exact .inr ⟨_, .name (isName_word hop) hstop hmark rfl fun hmem => absurd hmem hnot, rfl,
      .word hop⟩
  | nodeType hn hb hi => exact .inl (.nodeType hn hb hi)
  | name hname hstop hmark _ hparens => exact .inl (.name hname hstop hmark rfl hparens)

/-- Where it matters whether an operand has ended, a piece is an operator or an operand. -/
theorem eq_or_ambiguous (h : read true c rest = .ok r) (h' : read false c rest = .ok r') :
    r = r' ∨ Ambiguous r r' := by
  obtain ⟨hstands, htext⟩ := read_eq_ok_iff.1 h
  rcases hstands.elsewhere with hsame | ⟨r'', hother, htext', hamb⟩
  · rw [read_of_stands hsame htext] at h'
    exact .inl (Except.ok.inj h')
  · rw [read_of_stands hother (htext'.trans htext)] at h'
    cases h'
    exact .inr hamb

theorem tokens_readNumber (sign chars : List Char) :
    ∃ kind value, (kind = .integer ∨ kind = .decimal) ∧
      (readNumber sign chars).1.tokens = [(kind, some value)] := by
  unfold readNumber
  split
  · exact ⟨.decimal, _, .inr rfl, rfl⟩
  · exact ⟨.integer, _, .inl rfl, rfl⟩

/-- The one token of an ambiguous piece, read in both ways. -/
theorem Ambiguous.tokens (h : Ambiguous r r') :
    (∃ op, r.1.tokens = [(.operator op, none)]) ∧
      ∃ kind value, (kind = .name ∨ kind = .integer ∨ kind = .decimal) ∧
        r'.1.tokens = [(kind, some value)] := by
  cases h with
  | star => exact ⟨⟨_, rfl⟩, .name, _, .inl rfl, rfl⟩
  | word => exact ⟨⟨_, rfl⟩, .name, _, .inl rfl, rfl⟩
  | sign =>
    obtain ⟨kind, value, hkind, htokens⟩ := tokens_readNumber ['-'] _
    exact ⟨⟨_, rfl⟩, kind, value, .inr hkind, htokens⟩

end Lexeme

namespace Source

open Lexeme (isBlank)

/-- The tokens of one of the ways to read a text that begins on `line`: at every lexeme an operand
may have ended or not. -/
inductive ReadsAs : Nat → List Char → List Token → Prop where
  | blank {line chars} : chars.dropWhile isBlank = [] → ReadsAs line chars []
  | lexeme {line chars c rest l after ts} (afterOperand : Bool) :
      chars.dropWhile isBlank = c :: rest → Lexeme.read afterOperand c rest = .ok (l, after) →
      ReadsAs (lineAfter line (chars.takeWhile isBlank ++ l.text)) after ts →
      ReadsAs line chars (l.tokensOn (lineAfter line (chars.takeWhile isBlank)) ++ ts)

variable {line : Nat} {afterOperand : Bool} {c : Char} {chars rest : List Char}
  {previous ts us : List Token}

/-- The first lexeme of a text without faults. -/
theorem exists_lexeme (hchars : chars.dropWhile isBlank = c :: rest)
    (h : ofChars line afterOperand chars = ts.map .token) :
    ∃ l after more, Lexeme.read afterOperand c rest = .ok (l, after) ∧
      ts = l.tokensOn (lineAfter line (chars.takeWhile isBlank)) ++ more ∧
      ofChars (lineAfter line (chars.takeWhile isBlank ++ l.text)) l.endsOperand after =
        more.map .token := by
  cases hread : Lexeme.read afterOperand c rest with
  | error fault =>
    rw [ofChars_of_fault hchars hread] at h
    cases ts <;> cases h
  | ok reading =>
    obtain ⟨l, after⟩ := reading
    rw [ofChars_of_lexeme hchars hread, Lexeme.items_eq] at h
    obtain ⟨first, more, rfl, hfirst, hmore⟩ := List.map_eq_append_iff.1 h.symm
    have token : Function.Injective Item.token := fun _ _ => Item.token.inj
    obtain rfl := List.map_injective_iff.2 token hfirst
    exact ⟨l, after, more, rfl, rfl, hmore.symm⟩

/-- The tokens that are read are those of one of the ways. -/
theorem readsAs_of_ofChars (h : ofChars line afterOperand chars = ts.map .token) :
    ReadsAs line chars ts := by
  induction afterOperand, chars using lexeme_induction generalizing line ts with
  | blank afterOperand chars hchars =>
    rw [ofChars_of_blank hchars] at h
    cases List.map_eq_nil_iff.1 h.symm
    exact .blank hchars
  | fault afterOperand chars c rest fault hchars hread =>
    obtain ⟨l, after, more, hok, -⟩ := exists_lexeme hchars h
    rw [hread] at hok
    cases hok
  | lexeme afterOperand chars c rest l after hchars hread ih =>
    obtain ⟨l', after', more, hok, rfl, hmore⟩ := exists_lexeme hchars h
    rw [hread] at hok
    cases hok
    exact .lexeme afterOperand hchars hread (ih hmore)

def endsOperand (ts : List Token) : Bool :=
  ts.getLast?.any (·.kind.endsOperand)

theorem endsOperand_append_tokensOn (previous : List Token) {l : Lexeme} (hl : l.tokens ≠ [])
    (line : Nat) : endsOperand (previous ++ l.tokensOn line) = l.endsOperand := by
  have last := List.getLast?_eq_some_getLast hl
  simp [endsOperand, Lexeme.endsOperand, Lexeme.tokensOn, List.getLast?_append, last]

/-- The tokens differ, and the first ones that do stand behind a slash. -/
def DivergeBehindSlash (ts us : List Token) : Prop :=
  ∃ before s x y ts' us', ts = before ++ s :: x :: ts' ∧ us = before ++ s :: y :: us' ∧ x ≠ y ∧
    s.kind = .slash

section

variable {r r' : Lexeme × List Char}

/-- Behind the end of an operand no expression has another operand. -/
theorem not_sentence_of_operand (h : Lexeme.Ambiguous r r')
    (hprevious : endsOperand previous = true) :
    ¬Sentence (previous ++ (r'.1.tokensOn line ++ us)) := by
  obtain ⟨-, kind, value, hkind, htokens⟩ := h.tokens
  intro hs
  rcases List.eq_nil_or_concat' previous with rfl | ⟨before, p, rfl⟩
  · cases hprevious
  · have hp : p.kind.endsOperand = true := by simpa [endsOperand] using hprevious
    rw [Lexeme.tokensOn, htokens, List.append_assoc] at hs
    obtain ⟨hname, hinteger, hdecimal⟩ := hs.adjoins.operand hp
    rcases hkind with rfl | rfl | rfl
    · exact hname rfl
    · exact hinteger rfl
    · exact hdecimal rfl

/-- Elsewhere no expression has an operator, unless behind a slash. -/
theorem divergeBehindSlash_of_operator (h : Lexeme.Ambiguous r r')
    (hprevious : endsOperand previous = false)
    (hs : Sentence (previous ++ (r.1.tokensOn line ++ us))) :
    DivergeBehindSlash (previous ++ (r'.1.tokensOn line ++ ts))
      (previous ++ (r.1.tokensOn line ++ us)) := by
  obtain ⟨⟨op, hop⟩, kind, value, -, htokens⟩ := h.tokens
  simp only [Lexeme.tokensOn, hop, htokens] at hs ⊢
  rcases List.eq_nil_or_concat' previous with rfl | ⟨before, p, rfl⟩
  · exact absurd rfl hs.ne_operator
  · rw [List.append_assoc] at hs
    have hp : p.kind.endsOperand = false := by simpa [endsOperand] using hprevious
    have hslash : p.kind = .slash :=
      (hs.adjoins.operator op rfl).resolve_left (by simp [hp])
    refine ⟨before, p, _, _, ts, us, List.append_assoc .., List.append_assoc .., ?_, hslash⟩
    rintro ⟨⟩

end

/-- The reading that looks back and any other reading are the same, up to a place where the other
one gives what no expression has there, or up to a slash. -/
theorem divergeBehindSlash (hprevious : endsOperand previous = afterOperand)
    (hts : ofChars line afterOperand chars = ts.map .token) (hus : ReadsAs line chars us)
    (hne : us ≠ ts) (hs : Sentence (previous ++ us)) :
    DivergeBehindSlash (previous ++ ts) (previous ++ us) := by
  induction hus generalizing afterOperand previous ts with
  | blank hchars =>
    rw [ofChars_of_blank hchars] at hts
    exact absurd (List.map_eq_nil_iff.1 hts.symm).symm hne
  | @lexeme line chars c rest l after us flag hchars hread _ ih =>
    obtain ⟨l', after', more, hread', rfl, hmore⟩ := exists_lexeme hchars hts
    have same (heq : (l', after') = (l, after)) :
        DivergeBehindSlash
          (previous ++ (l'.tokensOn (lineAfter line (chars.takeWhile isBlank)) ++ more))
          (previous ++ (l.tokensOn (lineAfter line (chars.takeWhile isBlank)) ++ us)) := by
      cases heq
      have hnil := (Lexeme.read_eq_ok_iff.1 hread).1.tokens_ne_nil
      rw [← List.append_assoc, ← List.append_assoc]
      refine ih (endsOperand_append_tokensOn _ hnil _) hmore ?_ (by rwa [List.append_assoc])
      rintro rfl
      exact hne rfl
    -- only where the one says that an operand has ended and the other does not can they part
    cases afterOperand with
    | true =>
      cases flag with
      | true => exact same (Except.ok.inj (hread'.symm.trans hread))
      | false =>
        rcases Lexeme.eq_or_ambiguous hread' hread with heq | hamb
        · exact same heq
        · exact absurd hs (not_sentence_of_operand hamb hprevious)
    | false =>
      cases flag with
      | false => exact same (Except.ok.inj (hread'.symm.trans hread))
      | true =>
        rcases Lexeme.eq_or_ambiguous hread hread' with heq | hamb
        · exact same heq.symm
        · exact divergeBehindSlash_of_operator hamb hprevious hs

end Source

/-- Looking back at one token is one way to read a text, and loses an expression only behind a
slash: where the tokens of another way are an expression, the first of them that is not read so
stands directly behind a slash. -/
theorem look_behind_loses_only_behind_slash {text : String} {ts us : List Token}
    (hts : Source.ofText text = ts.map .token) (hus : Source.ReadsAs 1 text.toList us)
    (hne : us ≠ ts) (hs : Sentence us) :
    Source.ReadsAs 1 text.toList ts ∧ Source.DivergeBehindSlash ts us := by
  have diverge : Source.DivergeBehindSlash ([] ++ ts) ([] ++ us) :=
    Source.divergeBehindSlash rfl hts hus hne hs
  exact ⟨Source.readsAs_of_ofChars hts, diverge⟩

/-- The text `/*5` is read as a path, which it is not, and is not read as a product, which it is. -/
theorem look_behind_loses_only_behind_slash_product :
    let slash : Token := ⟨.slash, none, some 1⟩
    let star : Token := ⟨.name, some "*", some 1⟩
    let times : Token := ⟨.operator .times, none, some 1⟩
    let five : Token := ⟨.integer, some "5", some 1⟩
    Source.ofText "/*5" = [slash, star, five].map .token ∧
      Source.ReadsAs 1 "/*5".toList [slash, times, five] ∧
      [slash, times, five] ≠ [slash, star, five] ∧ Sentence [slash, times, five] ∧
      ¬Sentence [slash, star, five] ∧
      Source.DivergeBehindSlash [slash, star, five] [slash, times, five] := by
  intro slash star times five
  have hts : Source.ofText "/*5" = [slash, star, five].map .token := by decide +kernel
  have chars : "/*5".toList = ['/', '*', '5'] := by decide
  have hus : Source.ReadsAs 1 "/*5".toList [slash, times, five] := by
    have behindTimes : Source.ReadsAs 1 ['5'] [five] :=
      @Source.ReadsAs.lexeme 1 _ '5' [] (.carrying ['5'] .integer ['5']) [] [] false rfl rfl
        (.blank rfl)
    have behindSlash : Source.ReadsAs 1 ['*', '5'] [times, five] :=
      @Source.ReadsAs.lexeme 1 _ '*' ['5'] (.bare ['*'] (.operator .times)) ['5'] [five] true rfl
        rfl behindTimes
    rw [chars]
    exact @Source.ReadsAs.lexeme 1 _ '/' ['*', '5'] (.bare ['/'] .slash) ['*', '5'] [times, five]
      false rfl rfl behindSlash
  have hne : [slash, times, five] ≠ [slash, star, five] := by decide
  have hs : Sentence [slash, times, five] := by
    have root : Grammar.Derives (.level .union) [slash] (.absolutePath []) 0 := .single (.root rfl)
    have number : Grammar.Derives (.level .multiplicative) [five] (.integer "5") 0 :=
      .single (.single (.leaf (.integer rfl)))
    exact ⟨_, _, (Grammar.Derives.product rfl rfl root number).expression_of_level⟩
  have hnot : ¬Sentence ([slash] ++ star :: five :: []) :=
    fun h => (h.adjoins.operand rfl).2.1 rfl
  obtain ⟨-, diverge⟩ := look_behind_loses_only_behind_slash hts hus hne hs
  exact ⟨hts, hus, hne, hs, hnot, diverge⟩

end XPathSyntax
