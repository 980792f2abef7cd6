import XPathSyntax.Proofs.Grammar.Acceptance
import XPathSyntax.Proofs.Source.LookBehind
import XPathSyntax.Proofs.Source.Spelled

/-! What a text without faults says, lines apart: the contents of its tokens, one lexeme after
another. A text is parsed to a tree if and only if the contents are those of tokens that derive the
tree within the limits. -/

namespace XPathSyntax

open Grammar (Derives)
open Lexeme (Stands bare isBlank mark?)
open Token (content)

namespace Source

/-- The text consists of lexemes, with blanks around them, whose tokens have these contents. -/
inductive Yields : Bool → List Char → List (Token.Kind × Option String) → Prop where
  | blank {afterOperand blanks} : (∀ c ∈ blanks, isBlank c = true) →
      Yields afterOperand blanks []
  | lexeme {afterOperand blanks l after contents} : (∀ c ∈ blanks, isBlank c = true) →
      Stands afterOperand l after → Yields l.endsOperand after contents →
      Yields afterOperand (blanks ++ (l.text ++ after)) (l.tokens ++ contents)

variable {afterOperand : Bool} {chars rest blanks : List Char} {ts : List Token} {line : Nat}
  {contents : List (Token.Kind × Option String)} {c : Char} {kind : Token.Kind}

theorem map_content_tokensOn (l : Lexeme) (line : Nat) :
    (l.tokensOn line).map content = l.tokens := by
  rw [Lexeme.tokensOn, List.map_map]
  exact List.map_id _

theorem yields_of_ofChars (h : ofChars line afterOperand chars = ts.map .token) :
    Yields afterOperand chars (ts.map content) := by
  induction afterOperand, chars using lexeme_induction generalizing line ts with
  | blank afterOperand chars hchars =>
    rw [ofChars_of_blank hchars] at h
    cases List.map_eq_nil_iff.1 h.symm
    exact .blank (List.dropWhile_eq_nil_iff.1 hchars)
  | fault afterOperand chars c rest fault hchars hread =>
    obtain ⟨l, after, more, hok, -⟩ := exists_lexeme hchars h
    rw [hread] at hok
    cases hok
  | lexeme afterOperand chars c rest l after hchars hread ih =>
    obtain ⟨l', after', more, hok, rfl, hmore⟩ := exists_lexeme hchars h
    rw [hread] at hok
    cases hok
    obtain ⟨hstands, htext⟩ := Lexeme.read_eq_ok_iff.1 hread
    have parts := List.takeWhile_append_dropWhile (p := isBlank) (l := chars)
    rw [hchars, ← htext] at parts
    rw [List.map_append, map_content_tokensOn, ← parts]
    exact .lexeme (fun _ => Text.mem_takeWhile) hstands (ih hmore)

/-- The tokens are read from whatever line the text begins on. -/
theorem Yields.exists_ofChars (h : Yields afterOperand chars contents) (line : Nat) :
    ∃ ts : List Token, ofChars line afterOperand chars = ts.map .token ∧
      ts.map content = contents := by
  induction h generalizing line with
  | blank hblanks => exact ⟨[], ofChars_of_blank (List.dropWhile_eq_nil_iff.2 hblanks), rfl⟩
  | @lexeme _ blanks l after _ hblanks hl _ ih =>
    obtain ⟨c, rest, hc⟩ := hl.exists_cons
    have hchars := (hl.stops_blank.dropWhile_append hblanks).trans hc
    obtain ⟨ts, hts, rfl⟩ := ih
      (lineAfter line ((blanks ++ (l.text ++ after)).takeWhile isBlank ++ l.text))
    rw [ofChars_of_lexeme hchars (Lexeme.read_of_stands hl hc), Lexeme.items_eq, hts,
      ← List.map_append]
    refine ⟨_, rfl, ?_⟩
    rw [List.map_append, map_content_tokensOn]

theorem Yields.eq_nil (h : Yields afterOperand chars contents)
    (hchars : chars.dropWhile isBlank = []) : contents = [] := by
  cases h with
  | blank => rfl
  | lexeme hblanks hl =>
    rw [hl.stops_blank.dropWhile_append hblanks] at hchars
    exact absurd (List.append_eq_nil_iff.1 hchars).1 hl.text_ne_nil

/-- A mark with which the text begins is the first token. -/
theorem Yields.mark_inv (h : Yields afterOperand chars contents)
    (hchars : chars.dropWhile isBlank = c :: rest) (hm : mark? c = some kind) :
    ∃ more, contents = (kind, none) :: more ∧ Yields kind.endsOperand rest more := by
  cases h with
  | blank hblanks =>
    rw [List.dropWhile_eq_nil_iff.2 hblanks] at hchars
    cases hchars
  | lexeme hblanks hl h =>
    rw [hl.stops_blank.dropWhile_append hblanks] at hchars
    obtain ⟨rfl, rfl⟩ := hl.eq_of_mark hchars hm
    exact ⟨_, rfl, h⟩

theorem Yields.behind_blanks (h : Yields afterOperand chars contents)
    (hblanks : ∀ c ∈ blanks, isBlank c = true) :
    Yields afterOperand (blanks ++ chars) contents := by
  cases h with
  | blank hblanks' => exact .blank (List.forall_mem_append.2 ⟨hblanks, hblanks'⟩)
  | lexeme hblanks' hl h =>
    rw [← List.append_assoc]
    exact .lexeme (List.forall_mem_append.2 ⟨hblanks, hblanks'⟩) hl h

/-- One more lexeme in front. -/
theorem Yields.behind_lexeme {l : Lexeme} (h : Yields l.endsOperand rest contents)
    (hl : Stands afterOperand l rest) :
    Yields afterOperand (l.text ++ rest) (l.tokens ++ contents) :=
  .lexeme (List.forall_mem_nil _) hl h

theorem Yields.behind_mark (h : Yields kind.endsOperand rest contents)
    (hm : mark? c = some kind) : Yields afterOperand (c :: rest) ((kind, none) :: contents) :=
  Yields.behind_lexeme (l := bare [c] kind) h (.mark hm)

end Source

variable {limits : Limits} {text : String} {t : Tree}

/-- A text is parsed to a tree if and only if it yields tokens that derive the tree within the
limits. -/
theorem parse_eq_some_iff : parse limits text = .ok (some t) ↔
    ∃ ts n, Source.Yields false text.toList (ts.map content) ∧ Derives .expression ts t n ∧
      n ≤ limits.nesting ∧ t.charge ≤ limits.height := by
  constructor
  · intro h
    obtain ⟨ts, more, hts, hmore, tells⟩ := Source.tells_ofChars 1 false text.toList
    have hkind := tells.legible.kind_ne_endOfInput
    rw [parse, Source.ofText, hts] at h
    obtain ⟨rfl, -⟩ := derives_of_parseSource hkind hmore h
    rw [List.append_nil] at h hts
    obtain ⟨n, hd, hn, hh⟩ := (parseSource_eq_ok_iff hkind).1 h
    exact ⟨ts, n, Source.yields_of_ofChars hts, hd, hn, hh⟩
  · rintro ⟨ts, n, hyields, hd, hn, hh⟩
    obtain ⟨us, hus, hcontent⟩ := hyields.exists_ofChars 1
    have hd := hd.of_content hcontent
    rw [parse, Source.ofText, hus]
    exact (parseSource_eq_ok_iff hd.kind_ne_endOfInput).2 ⟨n, hd, hn, hh⟩

end XPathSyntax
