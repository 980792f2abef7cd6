import XPathSyntax.Proofs.Parser.Agreement
import XPathSyntax.Proofs.Source.Legible
import XPathSyntax.Token.Spelling

/-! Legible tokens are read again. Spelled out with a blank behind each, every token is a lexeme of
its own, which stands in front of the spelling of the others; so reading gives the same tokens, up
to their lines, and parsing gives the same tree or the same fault. -/

namespace XPathSyntax

open Lexeme (AxisMark Stands continuesName emptyParens? isBlank)
open Text (Stops stops_cons stops_nil)

/-- An operator stands in front of a blank, and at the end, wherever it can stand at all. -/
theorem Lexeme.stands_operator {afterOperand : Bool} {op : Operator} {rest : List Char}
    (hop : op.needsOperand = true → afterOperand = true)
    (hstop : ∀ p : Char → Bool, p ' ' = false → Stops p rest) (hmark : ¬AxisMark rest) :
    Stands afterOperand (bare op.spelling.toList (.operator op)) rest := by
  cases op with
  | equal | plus | union => exact .mark rfl
  | unequal => exact .unequal
  | atMost => exact .atMost
  | atLeast => exact .atLeast
  | less => exact .less (hstop _ rfl)
  | greater => exact .greater (hstop _ rfl)
  | minus =>
    refine .minus fun _ => Lexeme.beginsNumber_eq_false_iff.2 ⟨hstop _ rfl, ?_⟩
    rintro more rfl
    cases hstop (· == '.') rfl '.' rfl
  | times => exact .times (hop rfl)
  | and | or | div | mod => exact .word (hop rfl) rfl (hstop _ rfl) hmark

namespace Token

def lexeme (t : Token) : Lexeme :=
  ⟨t.spelling, [(t.kind, t.value)]⟩

def spellBehind : List Token → List Char
  | [] => []
  | t :: ts => ' ' :: spell (t :: ts)

theorem spell_cons (t : Token) (ts : List Token) :
    spell (t :: ts) = t.spelling ++ spellBehind ts := by
  cases ts <;> simp [spell, spellBehind]

theorem stops_spellBehind {p : Char → Bool} (hp : p ' ' = false) (ts : List Token) :
    Stops p (spellBehind ts) := by
  cases ts with
  | nil => exact stops_nil p
  | cons t ts => exact stops_cons hp _

/-- What may not come behind a name is not spelled there. -/
structure Parted (ts : List Token) : Prop where
  axisMark : ¬AxisMark (spellBehind ts)
  emptyParens : emptyParens? ((spellBehind ts).dropWhile isBlank) ≠ none → EmptyParens ts

variable {afterOperand : Bool} {t : Token} {ts : List Token}

theorem quoteFor_not_mem {s : List Char} (h : Text.isLiteral s = true) : quoteFor s ∉ s := by
  unfold quoteFor
  split
  next hmem =>
    rw [List.contains_iff_mem] at hmem
    simpa [Text.isLiteral, hmem] using h
  next hmem => simpa using hmem

theorem quoteFor_eq (s : List Char) : quoteFor s = '\x22' ∨ quoteFor s = '\'' := by
  unfold quoteFor
  split
  · exact .inr rfl
  · exact .inl rfl

/-- A token without text stands wherever it is legible. -/
theorem stands_of_bare {kind : Kind} {line : Option Nat}
    (h : Legible afterOperand ⟨kind, none, line⟩ ts) (hts : Parted ts) :
    Stands afterOperand (lexeme ⟨kind, none, line⟩) (spellBehind ts) := by
  obtain ⟨hvalue, h⟩ := h
  have stop {p : Char → Bool} (hp : p ' ' = false) := stops_spellBehind hp ts
  cases kind with
  | comma | openBracket | closeBracket | openParen | closeParen => exact .mark rfl
  | colon => exact .colon (stop rfl)
  | slash => exact .slash (stop rfl)
  | operator op => exact Lexeme.stands_operator h (fun _ => stop) hts.axisMark
  | endOfInput => exact absurd h id
  | _ => cases hvalue

/-- And so does one with a text. -/
theorem stands_of_carrying {kind : Kind} {text : List Char} {line : Option Nat}
    (h : Legible afterOperand ⟨kind, some (String.ofList text), line⟩ ts) (hts : Parted ts) :
    Stands afterOperand (lexeme ⟨kind, some (String.ofList text), line⟩) (spellBehind ts) := by
  obtain ⟨hvalue, h⟩ := h
  have stop {p : Char → Bool} (hp : p ' ' = false) := stops_spellBehind hp ts
  have signed {sign number : List Char} (hs : sign = [] ∨ sign = ['-'])
      (hh : (sign ++ number).head? = some '-' → afterOperand = false) :
      Lexeme.Sign afterOperand sign := by
    rcases hs with rfl | rfl
    · exact .inl rfl
    · exact .inr ⟨rfl, hh rfl⟩
  simp only [Token.text, Option.getD_some, String.toList_ofList] at h
  simp only [lexeme, spelling, Token.text, Option.getD_some, String.toList_ofList]
  cases kind with
  | axis =>
    obtain ⟨axis, rfl⟩ : ∃ axis : Axis, text = axis.name.toList := by
      obtain ⟨axis, ha⟩ := h
      exact ⟨axis, by rw [← ha, String.toList_ofList]⟩
    have stands : Stands afterOperand
        ⟨axis.name.toList ++ ([] ++ [':', ':']), [Lexeme.axisToken axis]⟩ (spellBehind ts) :=
      .axis (by simp)
    simpa [Lexeme.axisToken] using stands
  | name =>
    obtain ⟨hname, hstar, hop, hempty⟩ := h
    rw [Text.isNameOrStar, String.toList_ofList, Bool.or_eq_true, beq_iff_eq] at hname
    rcases hname with hname | hname
    · refine .name hname (stop rfl) hts.axisMark hop ?_
      intro hmem
      have none := fun hne => hempty hmem (hts.emptyParens hne)
      exact Classical.not_not.1 none
    · obtain rfl : text = ['*'] := by rw [← String.toList_ofList (l := text), hname]; rfl
      exact .star (hstar hname)
  | nodeType =>
    have stands : Stands afterOperand
        (Lexeme.carrying (text ++ ([] ++ '(' :: ([] ++ [')']))) .nodeType text) (spellBehind ts) :=
      .nodeType h (by simp) (by simp)
    exact stands
  | literal => exact .literal (quoteFor_eq text) (quoteFor_not_mem h)
  | integer =>
    obtain ⟨sign, digits, hs, hne, hd, rfl⟩ := Text.isInteger_iff.1 h.1
    exact .integer (signed hs h.2) hne hd (stop rfl)
  | decimal =>
    obtain ⟨sign, whole, fraction, hs, hne, hw, hf, rfl⟩ := Text.isDecimal_iff.1 h.1
    rw [List.append_assoc] at h
    exact .decimal (signed hs h.2) hne hw hf (stop rfl)
  | reference =>
    rcases Text.isReference_iff.1 h with hname | ⟨qualifier, name, hq, hname, rfl⟩
    · refine .reference hname (stop rfl) ?_
      intro c more hcolon
      cases ts <;> cases hcolon
    · exact .qualifiedReference hq hname (stop rfl)
  | _ => cases hvalue

theorem stands_lexeme (h : t.Legible afterOperand ts) (hts : Parted ts) :
    Stands afterOperand t.lexeme (spellBehind ts) := by
  obtain ⟨kind, value, line⟩ := t
  cases value with
  | none => exact stands_of_bare h hts
  | some value =>
    obtain ⟨text, rfl⟩ : ∃ text, value = String.ofList text :=
      ⟨value.toList, String.ofList_toList.symm⟩
    exact stands_of_carrying h hts

end Token

namespace Lexeme

variable {afterOperand : Bool} {l : Lexeme} {c : Char} {s chars rest : List Char}

theorem Stands.text_ne_nil (h : Stands afterOperand l rest) : l.text ≠ [] := by
  cases h with
  | integer _ hne => simp [carrying, hne]
  | name hname =>
    obtain ⟨c, tail, rfl, -⟩ := Text.isName_iff.1 hname
    exact List.cons_ne_nil _ _
  | @word op _ _ hop =>
    obtain ⟨c, tail, hs, -⟩ := Text.isName_iff.1 (isName_word hop)
    rw [bare, hs]
    exact List.cons_ne_nil _ _
  | _ => simp [bare, carrying]

theorem Stands.exists_cons (h : Stands afterOperand l rest) :
    ∃ c chars, l.text ++ rest = c :: chars :=
  List.exists_cons_of_ne_nil (List.append_ne_nil_of_left_ne_nil h.text_ne_nil rest)

theorem read_of_blank (h : isBlank c = true) :
    read afterOperand c chars = .error (.unexpectedCharacter c) := by
  simp only [isBlank, Bool.or_eq_true, beq_iff_eq] at h
  rcases h with (((rfl | rfl) | rfl) | rfl) | rfl <;> rfl

theorem Stands.not_blank (h : Stands afterOperand l rest) (hc : l.text ++ rest = c :: chars) :
    isBlank c = false := by
  have hread := read_of_stands h hc
  rw [Bool.eq_false_iff]
  intro hblank
  rw [read_of_blank hblank] at hread
  cases hread

theorem Stands.stops_blank (h : Stands afterOperand l rest) : Stops isBlank (l.text ++ rest) := by
  intro c hc
  obtain ⟨chars, hchars⟩ := List.head?_eq_some_iff.1 hc
  exact h.not_blank hchars

theorem Stands.not_axisMark (h : Stands afterOperand l rest) :
    l.text ++ rest ≠ ':' :: ':' :: chars := by
  intro hc
  cases read_of_stands h hc

theorem Stands.eq_of_mark (h : Stands afterOperand l rest) (hc : l.text ++ rest = c :: chars)
    {kind : Token.Kind} (hm : mark? c = some kind) : l = bare [c] kind ∧ rest = chars := by
  have hread := read_of_stands h hc
  unfold read at hread
  rw [hm] at hread
  have same := Prod.mk.inj (Except.ok.inj hread)
  exact ⟨same.1.symm, same.2.symm⟩

end Lexeme

namespace Token

def AllStand : Bool → List Token → Prop
  | _, [] => True
  | afterOperand, t :: ts =>
    Stands afterOperand t.lexeme (spellBehind ts) ∧ AllStand t.kind.endsOperand ts

variable {afterOperand : Bool} {ts : List Token}

theorem kind_of_lexeme {t : Token} {text : List Char} {kind : Kind}
    (h : t.lexeme = Lexeme.bare text kind) : t.kind = kind := by
  have tokens := congrArg Lexeme.tokens h
  exact congrArg Prod.fst (List.cons.inj tokens).1

theorem AllStand.dropWhile_spellBehind (h : AllStand afterOperand ts) :
    (spellBehind ts).dropWhile isBlank = spell ts := by
  cases ts with
  | nil => rfl
  | cons t ts =>
    obtain ⟨c, chars, hc⟩ := h.1.exists_cons
    have hspell : spell (t :: ts) = c :: chars := (spell_cons t ts).trans hc
    rw [spellBehind, hspell, List.dropWhile_cons_of_pos rfl,
      List.dropWhile_cons_of_neg (by simp [h.1.not_blank hc])]

theorem AllStand.parted (h : AllStand afterOperand ts) : Parted ts := by
  refine ⟨?_, ?_⟩
  · rintro ⟨more, hm⟩
    rw [h.dropWhile_spellBehind] at hm
    cases ts with
    | nil => cases hm
    | cons t ts =>
      rw [spell_cons] at hm
      exact h.1.not_axisMark hm
  · intro hne
    rw [h.dropWhile_spellBehind] at hne
    obtain ⟨⟨parens, rest⟩, hparens⟩ := Option.ne_none_iff_exists'.1 hne
    obtain ⟨blanks, hblanks, -, hopen⟩ := Lexeme.emptyParens?_eq_some hparens
    have hclose : (blanks ++ ')' :: rest).dropWhile isBlank = ')' :: rest :=
      Lexeme.dropWhile_blanks hblanks (by decide)
    cases ts with
    | nil => cases hopen
    | cons o ts =>
      rw [spell_cons] at hopen
      obtain ⟨ho, hinner⟩ := h.1.eq_of_mark hopen rfl
      rw [← hinner, h.2.dropWhile_spellBehind] at hclose
      cases ts with
      | nil => cases hclose
      | cons c ts =>
        rw [spell_cons] at hclose
        obtain ⟨hc, -⟩ := h.2.1.eq_of_mark hclose rfl
        exact ⟨o, c, ts, rfl, kind_of_lexeme ho, kind_of_lexeme hc⟩

theorem AllLegible.allStand (h : AllLegible afterOperand ts) : AllStand afterOperand ts := by
  induction ts generalizing afterOperand with
  | nil => trivial
  | cons t ts ih =>
    have hts := ih h.2
    exact ⟨stands_lexeme h.1 hts.parted, hts⟩

end Token

namespace Source

open Token (AllLegible AllStand content spell spell_cons spellBehind)

variable {afterOperand : Bool} {ts : List Token}

theorem ofChars_of_allStand (h : AllStand afterOperand ts) (line : Nat) (chars : List Char)
    (hchars : chars.dropWhile isBlank = spell ts) :
    ∃ us : List Token, ofChars line afterOperand chars = us.map .token ∧
      us.map content = ts.map content := by
  induction ts generalizing afterOperand line chars with
  | nil => exact ⟨[], ofChars_of_blank hchars, rfl⟩
  | cons t ts ih =>
    rw [spell_cons] at hchars
    obtain ⟨c, rest, hc⟩ := h.1.exists_cons
    have hread := Lexeme.read_of_stands h.1 hc
    obtain ⟨us, hus, hcontent⟩ := ih h.2
      (lineAfter line (chars.takeWhile isBlank ++ t.lexeme.text)) (spellBehind ts)
      h.2.dropWhile_spellBehind
    refine ⟨⟨t.kind, t.value, some (lineAfter line (chars.takeWhile isBlank))⟩ :: us, ?_, ?_⟩
    · rw [ofChars_of_lexeme (hchars.trans hc) hread]
      exact congrArg (_ :: ·) hus
    · rw [List.map_cons, List.map_cons, hcontent]
      rfl

/-- Legible tokens are read again from their spelling. -/
theorem ofText_spell (h : AllLegible false ts) :
    ∃ us : List Token, ofText (String.ofList (spell ts)) = us.map .token ∧
      us.map content = ts.map content := by
  have stand := h.allStand
  apply ofChars_of_allStand stand 1 _
  rw [String.toList_ofList]
  cases ts with
  | nil => rfl
  | cons t ts =>
    have blank := stand.dropWhile_spellBehind
    rwa [spellBehind, List.dropWhile_cons_of_pos rfl] at blank

/-- The tokens of a text without faults are legible. -/
theorem allLegible_of_ofText {text : String} (h : ofText text = ts.map .token) :
    AllLegible false ts := by
  obtain ⟨us, more, hus, hmore, tells⟩ := tells_ofChars 1 false text.toList
  rw [ofText, hus] at h
  obtain ⟨us', more', rfl, hus', hmore'⟩ := List.map_eq_append_iff.1 h.symm
  have token : Function.Injective Item.token := fun _ _ => Item.token.inj
  obtain rfl := List.map_injective_iff.2 token hus'
  rcases hmore with rfl | ⟨error, rest, rfl⟩
  · obtain rfl := List.map_eq_nil_iff.1 hmore'
    simpa using tells.legible
  · cases more' <;> cases hmore'

end Source

/-- The tokens of a text, spelled out with one blank between them, are read again as they were, and
parsed as the text is. -/
theorem spelling_reads_alike {text : String} {ts : List Token}
    (h : Source.ofText text = ts.map .token) :
    ∃ us : List Token, Source.ofText (String.ofList (Token.spell ts)) = us.map .token ∧
      us.map Token.content = ts.map Token.content ∧
      ∀ limits, Agree (parse limits text) (parse limits (String.ofList (Token.spell ts))) := by
  obtain ⟨us, hus, hcontent⟩ := Source.ofText_spell (Source.allLegible_of_ofText h)
  refine ⟨us, hus, hcontent, fun limits => ?_⟩
  rw [parse, parse, h, hus]
  exact parseSource_agree_of_content limits hcontent

/-- All abbreviations are spelled out, and `-1` stays a number. -/
theorem spelling_reads_alike_unabbreviated :
    let ts : List Token := [⟨.slash, none, some 1⟩, ⟨.axis, some "descendant-or-self", some 1⟩,
      ⟨.axis, some "attribute", some 1⟩, ⟨.name, some "a", some 1⟩, ⟨.openBracket, none, some 1⟩,
      ⟨.axis, some "parent", some 1⟩, ⟨.nodeType, some "node", some 1⟩,
      ⟨.operator .equal, none, some 1⟩, ⟨.integer, some "-1", some 1⟩,
      ⟨.closeBracket, none, some 1⟩]
    Source.ofText "//@a[..=-1]" = ts.map .token ∧
      String.ofList (Token.spell ts) =
        "/ descendant-or-self:: attribute:: a [ parent:: node() = -1 ]" ∧
      ∃ us : List Token, Source.ofText (String.ofList (Token.spell ts)) = us.map .token ∧
        us.map Token.content = ts.map Token.content ∧
        ∀ limits, Agree (parse limits "//@a[..=-1]")
          (parse limits (String.ofList (Token.spell ts))) := by
  intro ts
  have h : Source.ofText "//@a[..=-1]" = ts.map .token := by decide +kernel
  exact ⟨h, by decide +kernel, spelling_reads_alike h⟩

end XPathSyntax
