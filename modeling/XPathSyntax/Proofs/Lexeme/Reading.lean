import XPathSyntax.Proofs.Lexeme.Standing

/-! Lexemes are read where they stand: reading yields the lexeme that stands at the beginning of
the text, and fails only if there is none. -/

namespace XPathSyntax.Lexeme

open Text (Stops forall_bne isName_iff stops_cons)

variable {afterOperand : Bool} {c : Char} {chars rest : List Char} {l : Lexeme}

theorem readNumber_of_integer {sign digits : List Char} (hd : ∀ c ∈ digits, c.isDigit = true)
    (hstop : Stops (fun c => c.isDigit || c == '.') rest) :
    readNumber sign (digits ++ rest) =
      (carrying (sign ++ digits) .integer (sign ++ digits), rest) := by
  have stop : Stops Char.isDigit rest := fun c hc => (Bool.or_eq_false_iff.1 (hstop c hc)).1
  unfold readNumber
  rw [stop.takeWhile_append hd, stop.dropWhile_append hd]
  split
  next more => exact absurd (hstop '.' rfl) (by decide)
  next => rfl

theorem readNumber_of_decimal {sign whole fraction : List Char}
    (hw : ∀ c ∈ whole, c.isDigit = true) (hf : ∀ c ∈ fraction, c.isDigit = true)
    (hstop : Stops Char.isDigit rest) :
    readNumber sign (whole ++ '.' :: (fraction ++ rest)) =
      (carrying (sign ++ whole ++ '.' :: fraction) .decimal (sign ++ whole ++ '.' :: fraction),
        rest) := by
  have point : Stops Char.isDigit ('.' :: (fraction ++ rest)) := stops_cons (by decide) _
  unfold readNumber
  rw [point.takeWhile_append hw, point.dropWhile_append hw]
  simp only [hstop.takeWhile_append hf, hstop.dropWhile_append hf]

theorem readLiteral_of_content {quote : Char} {content : List Char} (h : quote ∉ content) :
    readLiteral quote (content ++ quote :: rest) =
      .ok (carrying (quote :: (content ++ [quote])) .literal content, rest) := by
  have inside := forall_bne h
  have stop : Stops (· != quote) (quote :: rest) := stops_cons (by simp) rest
  unfold readLiteral
  rw [stop.takeWhile_append inside, stop.dropWhile_append inside]

theorem readReference_of_name {name : List Char} (hname : Text.isName name = true)
    (hstop : Stops continuesName rest)
    (hcolon : ∀ c more, rest = ':' :: c :: more → beginsName c = false) :
    readReference (name ++ rest) = .ok (carrying ('$' :: name) .reference name, rest) := by
  obtain ⟨c, tail, rfl, hc, hall⟩ := isName_iff.1 hname
  simp only [readReference, List.cons_append, hc, ↓reduceIte]
  rw [← List.cons_append, hstop.takeWhile_append hall, hstop.dropWhile_append hall]
  split
  next d more => rw [if_neg (by simp [hcolon d more rfl])]
  next => rfl

theorem readReference_of_qualified {qualifier name : List Char}
    (hq : Text.isName qualifier = true) (hname : Text.isName name = true)
    (hstop : Stops continuesName rest) :
    readReference (qualifier ++ ':' :: (name ++ rest)) =
      .ok (carrying ('$' :: (qualifier ++ ':' :: name)) .reference (qualifier ++ ':' :: name),
        rest) := by
  obtain ⟨c, tail, rfl, hc, hall⟩ := isName_iff.1 hq
  obtain ⟨d, more, rfl, hd, hall'⟩ := isName_iff.1 hname
  have colon : Stops continuesName (':' :: (d :: more ++ rest)) := stops_cons (by decide) _
  simp only [readReference, List.cons_append, hc, ↓reduceIte]
  rw [← List.cons_append, ← List.cons_append, colon.takeWhile_append hall,
    colon.dropWhile_append hall]
  have taken := hstop.takeWhile_append hall'
  have dropped := hstop.dropWhile_append hall'
  simp only [List.cons_append] at taken dropped
  simp only [List.cons_append, hd, ↓reduceIte, taken, dropped]

theorem wordOperator?_spelling {op : Operator} (h : op.isWord = true) :
    wordOperator? true op.spelling = some op := by
  cases op with
  | and | or | div | mod => decide
  | _ => cases h

theorem wordOperator?_of_nodeType {name : String} (h : name ∈ nodeTypes) :
    wordOperator? afterOperand name = none := by
  cases afterOperand with
  | false => rfl
  | true =>
    simp only [nodeTypes, List.mem_cons, List.not_mem_nil, or_false] at h
    rcases h with rfl | rfl | rfl | rfl <;> decide

/-- Blanks before the mark of an axis or an open parenthesis do not matter. -/
theorem dropWhile_blanks {blanks : List Char} (hb : ∀ c ∈ blanks, isBlank c = true)
    (hc : isBlank c = false) : (blanks ++ c :: chars).dropWhile isBlank = c :: chars :=
  (stops_cons hc chars).dropWhile_append hb

theorem takeWhile_blanks {blanks : List Char} (hb : ∀ c ∈ blanks, isBlank c = true)
    (hc : isBlank c = false) : (blanks ++ c :: chars).takeWhile isBlank = blanks :=
  (stops_cons hc chars).takeWhile_append hb

theorem readName_of_axis {axis : Axis} {blanks : List Char}
    (hb : ∀ c ∈ blanks, isBlank c = true) :
    readName afterOperand axis.name.toList (blanks ++ ':' :: ':' :: rest) =
      .ok (⟨axis.name.toList ++ (blanks ++ [':', ':']), [axisToken axis]⟩, rest) := by
  unfold readName
  rw [dropWhile_blanks hb (by decide), takeWhile_blanks hb (by decide)]
  simp only [String.ofList_toList, Axis.ofName?_name]

theorem readName_of_word {op : Operator} (hop : op.isWord = true) (hmark : ¬AxisMark rest) :
    readName true op.spelling.toList rest =
      .ok (bare op.spelling.toList (.operator op), rest) := by
  unfold readName
  split
  next after hd => exact absurd ⟨after, hd⟩ hmark
  next => simp only [String.ofList_toList, wordOperator?_spelling hop]

theorem emptyParens?_of_blanks {inner : List Char} (hi : ∀ c ∈ inner, isBlank c = true) :
    emptyParens? ('(' :: (inner ++ ')' :: rest)) = some ('(' :: (inner ++ [')']), rest) := by
  unfold emptyParens?
  simp only [dropWhile_blanks hi (c := ')') (by decide), takeWhile_blanks hi (c := ')') (by decide)]

theorem readName_of_nodeType {name blanks inner : List Char} (hn : String.ofList name ∈ nodeTypes)
    (hb : ∀ c ∈ blanks, isBlank c = true) (hi : ∀ c ∈ inner, isBlank c = true) :
    readName afterOperand name (blanks ++ '(' :: (inner ++ ')' :: rest)) =
      .ok (carrying (name ++ (blanks ++ '(' :: (inner ++ [')']))) .nodeType name, rest) := by
  have htest : nodeTypeTest? name (blanks ++ '(' :: (inner ++ ')' :: rest)) =
      some (carrying (name ++ (blanks ++ '(' :: (inner ++ [')']))) .nodeType name, rest) := by
    unfold nodeTypeTest?
    rw [if_pos (by simpa using hn), dropWhile_blanks hb (by decide),
      takeWhile_blanks hb (by decide), emptyParens?_of_blanks hi]
    rfl
  unfold readName
  rw [dropWhile_blanks hb (by decide)]
  simp only [wordOperator?_of_nodeType hn, htest]
  rfl

theorem readName_of_name {name : List Char} (hmark : ¬AxisMark rest)
    (hop : wordOperator? afterOperand (String.ofList name) = none)
    (hparens : String.ofList name ∈ nodeTypes → emptyParens? (rest.dropWhile isBlank) = none) :
    readName afterOperand name rest = .ok (carrying name .name name, rest) := by
  have htest : nodeTypeTest? name rest = none := by
    unfold nodeTypeTest?
    split
    next hmem => rw [hparens (by simpa using hmem)]; rfl
    next => rfl
  unfold readName
  split
  next after hd => exact absurd ⟨after, hd⟩ hmark
  next => simp only [hop, htest]

theorem isDigit_of_beginsName (h : beginsName c = true) : c.isDigit = false := by
  have halpha (ha : c.isAlpha = true) : 65 ≤ c.toNat := by
    rcases Bool.or_eq_true_iff.1 ha with h | h
    · exact UInt32.le_iff_toNat_le.1 (of_decide_eq_true h).1
    · have low := UInt32.le_iff_toNat_le.1 (of_decide_eq_true (Bool.and_eq_true_iff.1 h).1)
      exact Nat.le_trans (by decide) low
  rw [Bool.eq_false_iff]
  intro hd
  have digit : 48 ≤ c.toNat ∧ c.toNat ≤ 57 := Char.isDigit_iff_toNat.1 hd
  simp only [beginsName, Bool.or_eq_true, beq_iff_eq, decide_eq_true_eq] at h
  rcases h with (h | rfl) | h
  · have := halpha h
    omega
  · cases hd
  · omega

theorem read_of_beginsName (h : beginsName c = true) :
    read afterOperand c chars = readName afterOperand ((c :: chars).takeWhile continuesName)
      ((c :: chars).dropWhile continuesName) := by
  unfold read
  split
  next kind hm =>
    unfold mark? at hm
    split at hm
    all_goals first | exact absurd h (by decide) | cases hm
  next =>
    split
    all_goals first | exact absurd h (by decide) | skip
    rw [if_neg (by simp [isDigit_of_beginsName h]), if_pos h]

theorem beginsNumber_append {digits : List Char} (hne : digits ≠ [])
    (hd : ∀ c ∈ digits, c.isDigit = true) : beginsNumber (digits ++ rest) = true := by
  cases digits with
  | nil => exact absurd rfl hne
  | cons c digits => exact beginsNumber_of_isDigit (hd c List.mem_cons_self)

theorem beginsNumber_decimal {whole fraction : List Char} (hne : whole ≠ [] ∨ fraction ≠ [])
    (hw : ∀ c ∈ whole, c.isDigit = true) (hf : ∀ c ∈ fraction, c.isDigit = true) :
    beginsNumber (whole ++ '.' :: (fraction ++ rest)) = true := by
  cases whole with
  | nil =>
    cases fraction with
    | nil => simp at hne
    | cons c fraction => exact hf c List.mem_cons_self
  | cons c whole => exact beginsNumber_append (List.cons_ne_nil _ _) hw

/-- A number is read where it begins, be it with a sign, a point or a digit. -/
theorem read_of_number {sign number : List Char} (hs : Sign afterOperand sign)
    (hb : beginsNumber number = true) (h : sign ++ number = c :: chars) :
    read afterOperand c chars = .ok (readNumber sign number) := by
  rcases hs with rfl | ⟨rfl, rfl⟩
  · rw [List.nil_append] at h
    subst h
    by_cases hd : c.isDigit = true
    · unfold read
      split
      next kind hm =>
        unfold mark? at hm
        split at hm
        all_goals first | cases hd | cases hm
      next =>
        split
        all_goals first | cases hd | skip
        rw [if_pos hd]
    · unfold beginsNumber at hb
      split at hb
      next d more hd' =>
        cases hd'
        have hpoint : d ≠ '.' := by
          rintro rfl
          cases hb
        simp [read, mark?, beginsNumber, hb, hpoint]
      next hd' => 
        cases hd'
        exact absurd hb hd
      next => cases hb
  · cases h
    simp [read, mark?, hb]

theorem read_of_isName {name : List Char} (hname : Text.isName name = true)
    (hstop : Stops continuesName rest) (h : name ++ rest = c :: chars) :
    read afterOperand c chars = readName afterOperand name rest := by
  obtain ⟨d, tail, rfl, hd, hall⟩ := isName_iff.1 hname
  have taken := hstop.takeWhile_append hall
  have dropped := hstop.dropWhile_append hall
  rw [h] at taken dropped
  cases h
  rw [read_of_beginsName hd, taken, dropped]

theorem isName_axis (axis : Axis) : Text.isName axis.name.toList = true := by
  cases axis <;> decide

theorem isName_word {op : Operator} (h : op.isWord = true) :
    Text.isName op.spelling.toList = true := by
  cases op with
  | and | or | div | mod => decide
  | _ => cases h

theorem isName_nodeType {name : List Char} (h : String.ofList name ∈ nodeTypes) :
    Text.isName name = true := by
  have all : ∀ s ∈ nodeTypes, Text.isName s.toList = true := by decide
  simpa using all _ h

theorem stops_blanks {blanks : List Char} (hb : ∀ c ∈ blanks, isBlank c = true)
    (hc : continuesName c = false) : Stops continuesName (blanks ++ c :: chars) := by
  intro d hd
  cases blanks with
  | nil => exact stops_cons hc chars d hd
  | cons b blanks =>
    obtain rfl : b = d := by simpa using hd
    have blank := hb b List.mem_cons_self
    simp only [isBlank, Bool.or_eq_true, beq_iff_eq] at blank
    rcases blank with (((rfl | rfl) | rfl) | rfl) | rfl <;> decide

theorem read_of_stands (h : Stands afterOperand l rest) (hc : l.text ++ rest = c :: chars) :
    read afterOperand c chars = .ok (l, rest) := by
  cases h with
  | mark hm =>
    cases hc
    unfold read
    rw [hm]
    rfl
  | attributes | slashes | parent | unequal | atMost | atLeast =>
    cases hc
    rfl
  | slash hs | colon hs | less hs | greater hs =>
    cases hc
    cases rest with
    | nil => rfl
    | cons d rest =>
      have hd := beq_eq_false_iff_ne.1 (hs d rfl)
      simp [read, mark?, hd]
  | self hs =>
    cases hc
    cases rest with
    | nil => rfl
    | cons d rest =>
      obtain ⟨hdigit, hpoint⟩ := Bool.or_eq_false_iff.1 (hs d rfl)
      simp [read, mark?, beginsNumber, hdigit, beq_eq_false_iff_ne.1 hpoint]
  | times hao =>
    cases hc
    simp [read, mark?, hao]
  | star hao =>
    cases hc
    simp [read, mark?, hao]
  | minus hb =>
    cases hc
    have unsigned : (!afterOperand && beginsNumber rest) = false := by
      cases afterOperand with
      | false => simpa using hb rfl
      | true => rfl
    simp [read, mark?, unsigned]
  | integer hs hne hd hstop =>
    rw [carrying, List.append_assoc] at hc
    rw [read_of_number hs (beginsNumber_append hne hd) hc, readNumber_of_integer hd hstop]
  | decimal hs hne hw hf hstop =>
    simp only [carrying, List.append_assoc, List.cons_append] at hc
    rw [read_of_number hs (beginsNumber_decimal hne hw hf) hc, readNumber_of_decimal hw hf hstop]
  | literal hq hn =>
    simp only [carrying, List.cons_append, List.append_assoc, List.nil_append] at hc
    cases hc
    rcases hq with rfl | rfl
    · exact readLiteral_of_content hn
    · exact readLiteral_of_content hn
  | reference hname hstop hcolon =>
    cases hc
    exact readReference_of_name hname hstop hcolon
  | qualifiedReference hq hname hstop =>
    simp only [carrying, List.cons_append, List.append_assoc] at hc
    cases hc
    exact readReference_of_qualified hq hname hstop
  | @axis axis _ _ hb =>
    simp only [List.append_assoc, List.cons_append, List.nil_append] at hc
    rw [read_of_isName (isName_axis axis) (stops_blanks hb (by decide)) hc, readName_of_axis hb]
  | word hao hop hstop hmark =>
    subst hao
    rw [read_of_isName (isName_word hop) hstop hc, readName_of_word hop hmark]
  | nodeType hn hb hi =>
    simp only [carrying, List.append_assoc, List.cons_append, List.nil_append] at hc
    rw [read_of_isName (isName_nodeType hn) (stops_blanks hb (by decide)) hc,
      readName_of_nodeType hn hb hi]
  | name hname hstop hmark hop hparens =>
    rw [read_of_isName hname hstop hc, readName_of_name hmark hop hparens]

/-- Reading finds the lexeme that stands at the beginning of the text, and nothing else. -/
theorem read_eq_ok_iff :
    read afterOperand c chars = .ok (l, rest) ↔
      Stands afterOperand l rest ∧ l.text ++ rest = c :: chars := by
  constructor
  · intro h
    exact ⟨stands_of_read h, read_append h⟩
  · rintro ⟨h, hc⟩
    exact read_of_stands h hc

end XPathSyntax.Lexeme
