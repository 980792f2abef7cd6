import XPathSyntax.Proofs.Lexeme.Bytes
import XPathSyntax.Proofs.Source.Spelled

/-! How a text divides into lexemes. A text is a row of lexemes with blanks between them, behind
which either nothing is left or no lexeme stands; each lexeme is the one that stands in front of all
that follows it, so there is only one such division. Reading finds it, and gives the tokens of its
lexemes on the lines on which these begin. -/

namespace XPathSyntax

open Lexeme (Fails Stands isBlank read_eq_ok_iff)
open Text (Stops mem_takeWhile)

variable {afterOperand : Bool} {l l' : Lexeme} {before chars rest rest' : List Char}

namespace Lexeme

/-- Only one lexeme stands at the beginning of a text. -/
theorem Stands.unique (h : Stands afterOperand l rest) (h' : Stands afterOperand l' rest')
    (heq : l.text ++ rest = l'.text ++ rest') : l = l' ∧ rest = rest' := by
  obtain ⟨c, chars, hc⟩ := h.exists_cons
  have hread := read_of_stands h hc
  rw [read_of_stands h' (heq.symm.trans hc)] at hread
  have same := Prod.mk.inj (Except.ok.inj hread)
  exact ⟨same.1.symm, same.2.symm⟩

end Lexeme

def lineBehind (chars : List Char) : Nat :=
  chars.count '\n' + 1

theorem lineAfter_lineBehind {before chars : List Char}
    (h : (before ++ chars).count '\n' < Count.top) :
    lineAfter (lineBehind before) chars = lineBehind (before ++ chars) := by
  rw [List.count_append] at h
  rw [lineAfter, lineBehind, lineBehind, Count.add_eq (by omega), List.count_append]
  omega

/-- Reading stops at the end of the text, or with a fault where no lexeme stands. -/
inductive Halts : List Char → Option LexicalFault → Prop where
  | atEnd : Halts [] none
  | atFault {unread fault} : Stops isBlank unread → Fails unread fault → Halts unread (some fault)

namespace Halts

variable {unread : List Char} {fault fault' : Option LexicalFault}

theorem stops_blank (h : Halts unread fault) : Stops isBlank unread := by
  cases h with
  | atEnd => exact Text.stops_nil isBlank
  | atFault hstop => exact hstop

theorem not_stands (h : Halts unread fault) (hl : Stands afterOperand l rest) :
    l.text ++ rest ≠ unread := by
  rintro rfl
  generalize htext : l.text ++ rest = text at h
  cases h with
  | atEnd => exact hl.text_ne_nil (List.append_eq_nil_iff.1 htext).1
  | atFault _ hfails => exact (htext ▸ hfails).not_stands hl

theorem fault_eq (h : Halts unread fault) (h' : Halts unread fault') : fault = fault' := by
  cases h with
  | atEnd =>
    cases h' with
    | atEnd => rfl
    | atFault _ hfails' => exact absurd rfl hfails'.ne_nil
  | atFault _ hfails =>
    cases h' with
    | atEnd => exact absurd rfl hfails.ne_nil
    | atFault _ hfails' => rw [hfails.unique hfails']

theorem asBytes (h : Halts unread fault) :
    Halts (Text.asBytes unread) (fault.map LexicalFault.asBytes) := by
  cases h with
  | atEnd => exact .atEnd
  | atFault hstop hfails =>
    exact .atFault (Lexeme.uniform_isBlank.stops_asBytes hstop) hfails.asBytes

end Halts

/-- A text in pieces: lexemes with blanks in front of them, and last the blanks behind which
nothing more is read. -/
inductive Division where
  | ending (blanks unread : List Char) (fault : Option LexicalFault)
  | lexeme (blanks : List Char) (lexeme : Lexeme) (behind : Division)

namespace Division

def text : Division → List Char
  | ending blanks unread _ => blanks ++ unread
  | lexeme blanks l behind => blanks ++ (l.text ++ behind.text)

/-- Every lexeme stands in front of all that follows it, and none in front of what is not read. -/
inductive Complete : Bool → Division → Prop where
  | ending {afterOperand blanks unread fault} : (∀ c ∈ blanks, isBlank c = true) →
      Halts unread fault → Complete afterOperand (.ending blanks unread fault)
  | lexeme {afterOperand blanks l behind} : (∀ c ∈ blanks, isBlank c = true) →
      Stands afterOperand l behind.text → Complete l.endsOperand behind →
      Complete afterOperand (.lexeme blanks l behind)

structure Divides (afterOperand : Bool) (d : Division) (chars : List Char) : Prop where
  text : d.text = chars
  complete : d.Complete afterOperand

/-- The tokens of the lexemes behind `before`, each on the line on which its lexeme begins, and the
fault on the line on which the text that is not read begins. -/
def source (before : List Char) : Division → Source
  | ending blanks _ fault =>
    (fault.map fun fault => .failure (.lexical fault (lineBehind (before ++ blanks)))).toList
  | lexeme blanks l behind =>
    (l.tokens.map fun (kind, value) =>
        Source.Item.token ⟨kind, value, some (lineBehind (before ++ blanks))⟩) ++
      behind.source (before ++ (blanks ++ l.text))

def asBytes : Division → Division
  | ending blanks unread fault =>
    ending (Text.asBytes blanks) (Text.asBytes unread) (fault.map LexicalFault.asBytes)
  | lexeme blanks l behind => lexeme (Text.asBytes blanks) l.asBytes behind.asBytes

variable {d d' : Division}

theorem Complete.unique (h : d.Complete afterOperand) (h' : d'.Complete afterOperand)
    (heq : d.text = d'.text) : d = d' := by
  induction h generalizing d' with
  | ending hblanks hhalts =>
    cases h' with
    | ending hblanks' hhalts' =>
      obtain ⟨rfl, rfl⟩ := hhalts.stops_blank.append_inj hhalts'.stops_blank hblanks hblanks' heq
      rw [hhalts.fault_eq hhalts']
    | lexeme hblanks' hl' =>
      obtain ⟨-, hunread⟩ := hhalts.stops_blank.append_inj hl'.stops_blank hblanks hblanks' heq
      exact absurd hunread.symm (hhalts.not_stands hl')
  | lexeme hblanks hl _ ih =>
    cases h' with
    | ending hblanks' hhalts' =>
      obtain ⟨-, hunread⟩ := hl.stops_blank.append_inj hhalts'.stops_blank hblanks hblanks' heq
      exact absurd hunread (hhalts'.not_stands hl)
    | lexeme hblanks' hl' hbehind' =>
      obtain ⟨rfl, hrest⟩ := hl.stops_blank.append_inj hl'.stops_blank hblanks hblanks' heq
      obtain ⟨rfl, hbehind⟩ := hl.unique hl' hrest
      rw [ih hbehind' hbehind]

/-- A text divides in one way only. -/
theorem Divides.unique (h : d.Divides afterOperand chars) (h' : d'.Divides afterOperand chars) :
    d = d' :=
  h.complete.unique h'.complete (h.text.trans h'.text.symm)

theorem text_asBytes (d : Division) : d.asBytes.text = Text.asBytes d.text := by
  induction d with
  | ending => exact (Text.asBytes_append _ _).symm
  | lexeme blanks l behind ih =>
    rw [asBytes, text, ih, text, Text.asBytes_append, Text.asBytes_append]
    rfl

theorem Complete.asBytes (h : d.Complete afterOperand) : d.asBytes.Complete afterOperand := by
  induction h with
  | ending hblanks hhalts =>
    exact .ending (Lexeme.uniform_isBlank.all_asBytes hblanks) hhalts.asBytes
  | lexeme hblanks hl _ ih =>
    refine .lexeme (Lexeme.uniform_isBlank.all_asBytes hblanks) ?_ ?_
    · rw [text_asBytes]
      exact hl.asBytes
    · rwa [Lexeme.endsOperand_asBytes]

/-- The bytes of a text divide into the bytes of its pieces. -/
theorem Divides.asBytes (h : d.Divides afterOperand chars) :
    d.asBytes.Divides afterOperand (Text.asBytes chars) :=
  ⟨by rw [text_asBytes, h.text], h.complete.asBytes⟩

end Division

/-- Reading divides every text, and counts its lines as long as they can be counted. -/
theorem exists_division (afterOperand : Bool) (before chars : List Char)
    (h : (before ++ chars).count '\n' < Count.top) :
    ∃ d : Division, d.Divides afterOperand chars ∧
      Source.ofChars (lineBehind before) afterOperand chars = d.source before := by
  induction afterOperand, chars using Source.lexeme_induction generalizing before with
  | blank afterOperand chars hchars =>
    have parts := List.takeWhile_append_dropWhile (p := isBlank) (l := chars)
    rw [hchars] at parts
    exact ⟨.ending _ _ none, ⟨parts, .ending (fun _ => mem_takeWhile) .atEnd⟩,
      Source.ofChars_of_blank hchars⟩
  | fault afterOperand chars c rest fault hchars hread =>
    have parts := List.takeWhile_append_dropWhile (p := isBlank) (l := chars)
    have stop := Text.stops_dropWhile isBlank chars
    rw [hchars] at parts stop
    refine ⟨.ending _ _ (some fault), ⟨parts,
      .ending (fun _ => mem_takeWhile) (.atFault stop (Lexeme.fails_of_read hread))⟩, ?_⟩
    rw [← parts, ← List.append_assoc, List.count_append] at h
    rw [Source.ofChars_of_fault hchars hread, lineAfter_lineBehind (by omega)]
    rfl
  | lexeme afterOperand chars c rest l after hchars hread ih =>
    have parts := List.takeWhile_append_dropWhile (p := isBlank) (l := chars)
    obtain ⟨hstands, htext⟩ := read_eq_ok_iff.1 hread
    rw [hchars, ← htext] at parts
    rw [← parts, ← List.append_assoc, ← List.append_assoc, List.append_assoc before] at h
    obtain ⟨d, ⟨rfl, hcomplete⟩, hsource⟩ := ih _ h
    refine ⟨.lexeme (chars.takeWhile isBlank) l d,
      ⟨parts, .lexeme (fun _ => mem_takeWhile) hstands hcomplete⟩, ?_⟩
    simp only [List.count_append] at h
    rw [Source.ofChars_of_lexeme hchars hread,
      lineAfter_lineBehind (by rw [List.count_append]; omega),
      lineAfter_lineBehind (by simp only [List.count_append]; omega), hsource]
    rfl

/-- Every text divides into lexemes in exactly one way, and its items are those of this division.
Its bytes divide into the bytes of the same pieces, so none of them ends inside a character. -/
theorem ofText_divides (text : String) (h : text.toList.count '\n' < Count.top) :
    ∃ d : Division, d.Divides false text.toList ∧ (∀ d', d'.Divides false text.toList → d' = d) ∧
      Source.ofText text = d.source [] ∧
      d.asBytes.Divides false (Text.asBytes text.toList) ∧
      ∀ d', d'.Divides false (Text.asBytes text.toList) → d' = d.asBytes := by
  obtain ⟨d, hd, hsource⟩ := exists_division false [] text.toList h
  exact ⟨d, hd, fun d' hd' => hd'.unique hd, hsource, hd.asBytes,
    fun d' hd' => hd'.unique hd.asBytes⟩

/-- A variable, two slashes and a name on the first line, an operator and a literal on the second,
and behind the literal, which ends on the third, a mark that is no lexeme. -/
theorem ofText_divides_over_lines :
    let text := "$p:q//é\n- 'x\ny'\n! b"
    text.toList.count '\n' < Count.top ∧
      ∃ d : Division, d.Divides false text.toList ∧ (∀ d', d'.Divides false text.toList → d' = d) ∧
        Source.ofText text = d.source [] ∧
        d.source [] = [.token ⟨.reference, some "p:q", some 1⟩, .token ⟨.slash, none, some 1⟩,
          .token ⟨.axis, some "descendant-or-self", some 1⟩, .token ⟨.name, some "é", some 1⟩,
          .token ⟨.operator .minus, none, some 2⟩, .token ⟨.literal, some "x\ny", some 2⟩,
          .failure (.lexical .bangWithoutEquals 4)] ∧
        d.asBytes.Divides false (Text.asBytes text.toList) ∧
        ∀ d', d'.Divides false (Text.asBytes text.toList) → d' = d.asBytes := by
  intro text
  have hlines : text.toList.count '\n' < Count.top := by decide +kernel
  obtain ⟨d, hd, hunique, hsource, hbytes⟩ := ofText_divides text hlines
  refine ⟨hlines, d, hd, hunique, hsource, ?_, hbytes⟩
  rw [← hsource]
  decide +kernel

end XPathSyntax
