import XPathSyntax.Proofs.Lexeme.Reading

/-! Where no lexeme stands, and why. Whether reading fails depends only on the text in front of it,
not on whether an operand has ended. -/

namespace XPathSyntax.Lexeme

open Text (Stops stops_dropWhile isName_takeWhile)

/-- Whether a lexeme, or one that is cut short, begins with this character. -/
def beginsLexeme (c : Char) : Bool :=
  beginsName c || c.isDigit || (mark? c).isSome || "@/*-.:!<>\x22'$".toList.contains c

/-- No lexeme stands at the beginning of this text, for this reason. -/
inductive Fails : List Char → LexicalFault → Prop where
  | axisMark {rest} : Fails (':' :: ':' :: rest) .axisMarkWithoutName
  | bang {rest} : Stops (· == '=') rest → Fails ('!' :: rest) .bangWithoutEquals
  | literal {quote content} : quote = '\x22' ∨ quote = '\'' → quote ∉ content →
      Fails (quote :: content) .unterminatedLiteral
  | dollar {rest} : Stops beginsName rest → Fails ('$' :: rest) .dollarWithoutName
  | axis {name rest} : Text.isName name = true → Stops continuesName rest → AxisMark rest →
      Axis.ofName? (String.ofList name) = none →
      Fails (name ++ rest) (.unknownAxis (String.ofList name))
  | character {c rest} : beginsLexeme c = false → Fails (c :: rest) (.unexpectedCharacter c)

variable {afterOperand : Bool} {c : Char} {chars rest : List Char} {fault : LexicalFault}

theorem fails_of_readLiteral {quote : Char} (hq : quote = '\x22' ∨ quote = '\'')
    (h : readLiteral quote chars = .error fault) : Fails (quote :: chars) fault := by
  have parts := List.takeWhile_append_dropWhile (p := (· != quote)) (l := chars)
  unfold readLiteral at h
  split at h
  next hd =>
    cases h
    refine .literal hq ?_
    intro hmem
    rw [← parts, hd, List.append_nil] at hmem
    simpa using Text.mem_takeWhile hmem
  next => cases h

theorem fails_of_readReference (h : readReference chars = .error fault) :
    Fails ('$' :: chars) fault := by
  unfold readReference at h
  split at h
  next =>
    cases h
    exact .dollar (Text.stops_nil _)
  next =>
    split at h
    next =>
      split at h
      next => split at h <;> cases h
      next => cases h
    next hc =>
      cases h
      exact .dollar (Text.stops_cons (by simpa using hc) _)

theorem fails_of_readName {name : List Char} (hname : Text.isName name = true)
    (hstop : Stops continuesName chars) (h : readName afterOperand name chars = .error fault) :
    Fails (name ++ chars) fault := by
  unfold readName at h
  split at h
  next after hd =>
    split at h
    next => cases h
    next haxis =>
      cases h
      exact .axis hname hstop ⟨after, hd⟩ haxis
  next => split at h <;> cases h

/-- A character that is none of those that a lexeme begins with is not expected. -/
theorem read_of_not_beginsLexeme (h : beginsLexeme c = false) :
    read afterOperand c chars = .error (.unexpectedCharacter c) := by
  simp only [beginsLexeme, Bool.or_eq_false_iff] at h
  obtain ⟨⟨⟨hname, hdigit⟩, hmark⟩, hopener⟩ := h
  unfold read
  split
  next hm => rw [hm] at hmark; cases hmark
  next =>
    split
    all_goals first | exact absurd hopener (by decide) | skip
    rw [if_neg (by simp [hdigit]), if_neg (by simp [hname])]

theorem fails_of_read (h : read afterOperand c chars = .error fault) :
    Fails (c :: chars) fault := by
  cases hbegins : beginsLexeme c with
  | false =>
    rw [read_of_not_beginsLexeme hbegins] at h
    cases h
    exact .character hbegins
  | true =>
    unfold read at h
    split at h
    next => cases h
    next hmark =>
      split at h
      all_goals try (cases h; done)
      next => split at h <;> cases h
      next => split at h <;> cases h
      next => split at h <;> cases h
      next => cases h; exact .axisMark
      next hne =>
        cases h
        refine .bang ?_
        intro d hd
        obtain ⟨more, rfl⟩ := List.head?_eq_some_iff.1 hd
        have : d ≠ '=' := by
          rintro rfl
          exact hne more rfl
        simpa using this
      next => exact fails_of_readLiteral (.inl rfl) h
      next => exact fails_of_readLiteral (.inr rfl) h
      next => exact fails_of_readReference h
      next =>
        split at h
        next => cases h
        next hdigit =>
          split at h
          next hname =>
            have hfails := fails_of_readName (isName_takeWhile hname) (stops_dropWhile _ _) h
            rwa [List.takeWhile_append_dropWhile] at hfails
          next hname =>
            simp_all [beginsLexeme]

theorem read_of_fails (h : Fails (c :: chars) fault) :
    read afterOperand c chars = .error fault := by
  generalize htext : c :: chars = text at h
  cases h with
  | axisMark => cases htext; rfl
  | bang hstop =>
    cases htext
    cases chars with
    | nil => rfl
    | cons d rest => simp [read, mark?, beq_eq_false_iff_ne.1 (hstop d rfl)]
  | literal hq hn =>
    cases htext
    have unclosed : readLiteral c chars = .error .unterminatedLiteral := by
      have all := (Text.stops_nil (· != c)).dropWhile_append (Text.forall_bne hn)
      rw [List.append_nil] at all
      rw [readLiteral, all]
    rcases hq with rfl | rfl
    · exact unclosed
    · exact unclosed
  | dollar hstop =>
    cases htext
    cases chars with
    | nil => rfl
    | cons d rest => simp [read, mark?, readReference, hstop d rfl]
  | axis hname hstop hmark haxis =>
    obtain ⟨more, hmore⟩ := hmark
    rw [read_of_isName hname hstop htext.symm]
    simp only [readName, hmore, haxis]
  | character hbegins =>
    cases htext
    exact read_of_not_beginsLexeme hbegins

/-- Reading fails where no lexeme stands, and gives the reason. -/
theorem read_eq_error_iff : read afterOperand c chars = .error fault ↔ Fails (c :: chars) fault :=
  ⟨fails_of_read, read_of_fails⟩

theorem Fails.ne_nil (h : Fails chars fault) : chars ≠ [] := by
  cases h with
  | axis hname =>
    obtain ⟨c, tail, rfl, -⟩ := Text.isName_iff.1 hname
    exact List.cons_ne_nil _ _
  | _ => exact List.cons_ne_nil _ _

/-- There is only one reason. -/
theorem Fails.unique {fault' : LexicalFault} (h : Fails chars fault) (h' : Fails chars fault') :
    fault = fault' := by
  obtain ⟨c, rest, rfl⟩ := List.exists_cons_of_ne_nil h.ne_nil
  have hread : read false c rest = .error fault := read_of_fails h
  rw [read_of_fails h'] at hread
  exact (Except.error.inj hread).symm

theorem Fails.not_stands {l : Lexeme} (h : Fails (l.text ++ rest) fault) :
    ¬Stands afterOperand l rest := by
  intro hl
  obtain ⟨c, chars, hc⟩ := List.exists_cons_of_ne_nil h.ne_nil
  rw [hc] at h
  have hread : read afterOperand c chars = .error fault := read_of_fails h
  rw [read_of_stands hl hc] at hread
  cases hread

end XPathSyntax.Lexeme
