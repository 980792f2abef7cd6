import XPathSyntax.Proofs.Lexeme.Faults
import XPathSyntax.Proofs.Text.Bytes

/-! Lexemes byte by byte. Where a lexeme stands its bytes stand, and where none stands none does in
the bytes: whoever reads bytes never divides a character. -/

namespace XPathSyntax

open Text (Stops Uniform asBytes_append asBytes_cons asBytes_of_ascii isAscii isAscii_iff
  uniform_of_ascii isName_iff)

namespace Lexeme

variable {afterOperand : Bool} {c : Char} {l : Lexeme} {s name rest : List Char}

theorem ascii_of_isBlank (h : isBlank c = true) : c.toNat < 0x80 := by
  simp only [isBlank, Bool.or_eq_true, beq_iff_eq] at h
  rcases h with (((rfl | rfl) | rfl) | rfl) | rfl <;> decide

theorem ascii_of_isDigit (h : c.isDigit = true) : c.toNat < 0x80 :=
  Nat.lt_of_le_of_lt (Char.isDigit_iff_toNat.1 h).2 (by decide)

theorem uniform_isBlank : Uniform isBlank :=
  uniform_of_ascii fun _ => ascii_of_isBlank

theorem uniform_isDigit : Uniform Char.isDigit :=
  uniform_of_ascii fun _ => ascii_of_isDigit

theorem uniform_digitOrPoint : Uniform (fun c => c.isDigit || c == '.') := by
  apply uniform_of_ascii
  intro c hc
  rw [Bool.or_eq_true, beq_iff_eq] at hc
  rcases hc with hc | rfl
  · exact ascii_of_isDigit hc
  · decide

theorem uniform_eq {a : Char} (ha : a.toNat < 0x80) : Uniform (· == a) := by
  apply uniform_of_ascii
  intro c hc
  rwa [beq_iff_eq.1 hc]

theorem uniform_beginsName : Uniform beginsName :=
  ⟨true, fun c hc => by simp [beginsName, hc]⟩

theorem uniform_continuesName : Uniform continuesName :=
  ⟨true, fun c hc => by simp [continuesName, beginsName, hc]⟩

theorem isName_asBytes (h : Text.isName name = true) : Text.isName (Text.asBytes name) = true := by
  obtain ⟨c, tail, rfl, hc, hall⟩ := isName_iff.1 h
  obtain ⟨d, more, hd, hmore⟩ := Text.exists_asBytes_cons c tail
  refine isName_iff.2 ⟨d, more, hmore, ?_, uniform_continuesName.all_asBytes hall⟩
  rw [uniform_beginsName.apply_asBytes hd, hc]

def asBytes (l : Lexeme) : Lexeme :=
  ⟨Text.asBytes l.text, l.tokens.map fun (kind, value) =>
    (kind, value.map fun s => String.ofList (Text.asBytes s.toList))⟩

theorem asBytes_bare (text : List Char) (kind : Token.Kind) :
    (bare text kind).asBytes = bare (Text.asBytes text) kind :=
  rfl

theorem asBytes_carrying (text : List Char) (kind : Token.Kind) (value : List Char) :
    (carrying text kind value).asBytes =
      carrying (Text.asBytes text) kind (Text.asBytes value) := by
  simp [carrying, asBytes]

theorem axisMark_asBytes : AxisMark (Text.asBytes rest) ↔ AxisMark rest := by
  simp only [AxisMark, uniform_isBlank.dropWhile_asBytes]
  constructor
  · rintro ⟨more, hmore⟩
    obtain ⟨first, hfirst, htail⟩ := Text.asBytes_eq_cons (by decide) hmore
    obtain ⟨second, rfl, -⟩ := Text.asBytes_eq_cons (by decide) htail
    exact ⟨second, hfirst⟩
  · rintro ⟨more, hmore⟩
    exact ⟨Text.asBytes more, by rw [hmore]; rfl⟩

theorem beginsNumber_of_ne (h : c ≠ '.') (s : List Char) : beginsNumber (c :: s) = c.isDigit := by
  unfold beginsNumber
  split
  next heq => exact absurd (List.cons.inj heq).1 h
  next heq => rw [(List.cons.inj heq).1]
  next heq => cases heq

theorem beginsNumber_asBytes (s : List Char) :
    beginsNumber (Text.asBytes s) = beginsNumber s := by
  cases s with
  | nil => rfl
  | cons c s =>
    by_cases hc : c = '.'
    · rw [hc, asBytes_cons, Text.asBytes_singleton (by decide)]
      cases s with
      | nil => rfl
      | cons d s =>
        obtain ⟨e, more, he, hmore⟩ := Text.exists_asBytes_cons d s
        rw [hmore]
        exact uniform_isDigit.apply_asBytes he
    · obtain ⟨e, more, he, hmore⟩ := Text.exists_asBytes_cons c s
      have hpoint : (e == '.') = (c == '.') := (uniform_eq (by decide)).apply_asBytes he
      rw [beq_eq_false_iff_ne.2 hc, beq_eq_false_iff_ne] at hpoint
      rw [hmore, beginsNumber_of_ne hc, beginsNumber_of_ne hpoint]
      exact uniform_isDigit.apply_asBytes he

theorem emptyParens?_asBytes (h : emptyParens? s = none) :
    emptyParens? (Text.asBytes s) = none := by
  refine Option.eq_none_iff_forall_ne_some.2 fun ⟨parens, rest⟩ hparens => ?_
  obtain ⟨blanks, hblanks, -, hopen⟩ := emptyParens?_eq_some hparens
  obtain ⟨inner, rfl, hinner⟩ := Text.asBytes_eq_cons (by decide) hopen
  have hclose := uniform_isBlank.dropWhile_asBytes inner
  rw [hinner, dropWhile_blanks hblanks (by decide)] at hclose
  obtain ⟨more, hmore, -⟩ := Text.asBytes_eq_cons (by decide) hclose.symm
  simp [emptyParens?, hmore] at h

/-- The words of the language are in ASCII, so no other name has the bytes of one. -/
theorem ofList_of_asBytes {word : String} (hword : isAscii word.toList = true)
    (h : word = String.ofList (Text.asBytes name)) : word = String.ofList name := by
  have htext : Text.asBytes name = word.toList := by rw [h, String.toList_ofList]
  rw [Text.eq_of_asBytes_eq htext hword, String.ofList_toList]

theorem isAscii_nodeTypes : ∀ s ∈ nodeTypes, isAscii s.toList = true := by
  decide

theorem isAscii_spelling (op : Operator) : isAscii op.spelling.toList = true := by
  cases op <;> decide

theorem isAscii_axis (axis : Axis) : isAscii axis.name.toList = true := by
  cases axis <;> decide

theorem isAscii_blanks (h : ∀ c ∈ s, isBlank c = true) : isAscii s = true :=
  isAscii_iff.2 fun c hc => ascii_of_isBlank (h c hc)

theorem isAscii_digits (h : ∀ c ∈ s, c.isDigit = true) : isAscii s = true :=
  isAscii_iff.2 fun c hc => ascii_of_isDigit (h c hc)

theorem isAscii_sign (h : Sign afterOperand s) : isAscii s = true := by
  rcases h with rfl | ⟨rfl, -⟩ <;> decide

theorem wordOperator?_asBytes (h : wordOperator? afterOperand (String.ofList name) = none) :
    wordOperator? afterOperand (String.ofList (Text.asBytes name)) = none := by
  refine Option.eq_none_iff_forall_ne_some.2 fun op hop => ?_
  obtain ⟨rfl, hword, hspelling⟩ := wordOperator?_eq_some hop
  rw [← ofList_of_asBytes (isAscii_spelling op) hspelling, wordOperator?_spelling hword] at h
  cases h

theorem Stands.asBytes (h : Stands afterOperand l rest) :
    Stands afterOperand l.asBytes (Text.asBytes rest) := by
  cases h with
  | @mark c _ _ hm =>
    have hc : Text.asBytes [c] = [c] := by
      unfold mark? at hm
      split at hm
      all_goals first | rfl | cases hm
    rw [asBytes_bare, hc]
    exact .mark hm
  | attributes => exact .attributes
  | slashes => exact .slashes
  | parent => exact .parent
  | unequal => exact .unequal
  | atMost => exact .atMost
  | atLeast => exact .atLeast
  | slash hs => exact .slash ((uniform_eq (by decide)).stops_asBytes hs)
  | colon hs => exact .colon ((uniform_eq (by decide)).stops_asBytes hs)
  | less hs => exact .less ((uniform_eq (by decide)).stops_asBytes hs)
  | greater hs => exact .greater ((uniform_eq (by decide)).stops_asBytes hs)
  | self hs => exact .self (uniform_digitOrPoint.stops_asBytes hs)
  | times hao => exact .times hao
  | star hao => exact .star hao
  | minus hb =>
    refine .minus fun hao => ?_
    rw [beginsNumber_asBytes, hb hao]
  | integer hs hne hd hstop =>
    rw [asBytes_carrying, asBytes_of_ascii (by simp [isAscii_sign hs, isAscii_digits hd])]
    exact .integer hs hne hd (uniform_digitOrPoint.stops_asBytes hstop)
  | decimal hs hne hw hf hstop =>
    rw [asBytes_carrying,
      asBytes_of_ascii (by simp [isAscii_sign hs, isAscii_digits hw, isAscii_digits hf])]
    exact .decimal hs hne hw hf (uniform_isDigit.stops_asBytes hstop)
  | @literal quote content _ hq hn =>
    have hascii : quote.toNat < 0x80 := by rcases hq with rfl | rfl <;> decide
    have hcontent : quote ∉ Text.asBytes content := fun h => hn (Text.mem_asBytes_of_ascii hascii h)
    rw [asBytes_carrying, asBytes_cons, asBytes_append, Text.asBytes_singleton hascii]
    exact .literal hq hcontent
  | reference hname hstop hcolon =>
    rw [asBytes_carrying, asBytes_cons]
    refine .reference (isName_asBytes hname) (uniform_continuesName.stops_asBytes hstop) ?_
    intro c more hmore
    obtain ⟨tail, rfl, htail⟩ := Text.asBytes_eq_cons (by decide) hmore
    cases tail with
    | nil => cases htail
    | cons d tail =>
      exact uniform_beginsName.stops_asBytes (Text.stops_cons (hcolon d tail rfl) tail) c
        (by rw [htail]; rfl)
  | qualifiedReference hq hname hstop =>
    rw [asBytes_carrying, asBytes_cons, asBytes_append, asBytes_cons ':']
    exact .qualifiedReference (isName_asBytes hq) (isName_asBytes hname)
      (uniform_continuesName.stops_asBytes hstop)
  | @axis axis blanks _ hb =>
    have ascii : isAscii (axis.name.toList ++ (blanks ++ [':', ':'])) = true := by
      simp [isAscii_axis, isAscii_blanks hb]
    have htoken : (Lexeme.asBytes ⟨[], [axisToken axis]⟩).tokens = [axisToken axis] := by
      cases axis <;> rfl
    have stands : Stands afterOperand
        ⟨axis.name.toList ++ (blanks ++ [':', ':']), [axisToken axis]⟩ (Text.asBytes rest) :=
      .axis hb
    rwa [← htoken, ← asBytes_of_ascii ascii] at stands
  | @word op _ hao hw hstop hmark =>
    rw [asBytes_bare, asBytes_of_ascii (isAscii_spelling op)]
    exact .word hao hw (uniform_continuesName.stops_asBytes hstop) (mt axisMark_asBytes.1 hmark)
  | @nodeType name blanks inner _ hn hb hi =>
    have hname : isAscii name = true := by simpa using isAscii_nodeTypes _ hn
    have ascii : isAscii (name ++ (blanks ++ '(' :: (inner ++ [')']))) = true := by
      simp [hname, isAscii_blanks hb, isAscii_blanks hi]
    rw [asBytes_carrying, asBytes_of_ascii ascii, asBytes_of_ascii hname]
    exact .nodeType hn hb hi
  | name hname hstop hmark hop hparens =>
    rw [asBytes_carrying]
    refine .name (isName_asBytes hname) (uniform_continuesName.stops_asBytes hstop)
      (mt axisMark_asBytes.1 hmark) (wordOperator?_asBytes hop) ?_
    intro hmem
    rw [uniform_isBlank.dropWhile_asBytes]
    apply emptyParens?_asBytes
    rw [ofList_of_asBytes (isAscii_nodeTypes _ hmem) rfl] at hmem
    exact hparens hmem

theorem endsOperand_asBytes (l : Lexeme) : l.asBytes.endsOperand = l.endsOperand := by
  simp [endsOperand, asBytes, List.getLast?_map, Option.any_map]

end Lexeme

def LexicalFault.asBytes : LexicalFault → LexicalFault
  | unknownAxis name => unknownAxis (String.ofList (Text.asBytes name.toList))
  | fault => fault

namespace Lexeme

theorem ofName?_asBytes {name : List Char} (h : Axis.ofName? (String.ofList name) = none) :
    Axis.ofName? (String.ofList (Text.asBytes name)) = none := by
  refine Option.eq_none_iff_forall_ne_some.2 fun axis haxis => ?_
  rw [← ofList_of_asBytes (isAscii_axis axis) (Axis.ofName?_eq_some_iff.1 haxis),
    Axis.ofName?_name] at h
  cases h

theorem Fails.asBytes {chars : List Char} {fault : LexicalFault} (h : Fails chars fault) :
    Fails (Text.asBytes chars) fault.asBytes := by
  cases h with
  | axisMark => exact .axisMark
  | bang hs => exact .bang ((uniform_eq (by decide)).stops_asBytes hs)
  | dollar hs => exact .dollar (uniform_beginsName.stops_asBytes hs)
  | @literal quote content hq hn =>
    have hascii : quote.toNat < 0x80 := by rcases hq with rfl | rfl <;> decide
    rw [asBytes_cons, Text.asBytes_singleton hascii]
    exact .literal hq fun h => hn (Text.mem_asBytes_of_ascii hascii h)
  | axis hname hstop hmark haxis =>
    rw [asBytes_append, LexicalFault.asBytes, String.toList_ofList]
    exact .axis (isName_asBytes hname) (uniform_continuesName.stops_asBytes hstop)
      (axisMark_asBytes.2 hmark) (ofName?_asBytes haxis)
  | @character c _ hc =>
    have hascii : c.toNat < 0x80 := by
      refine Nat.lt_of_not_le fun hbeyond => ?_
      simp [beginsLexeme, beginsName, hbeyond] at hc
    rw [asBytes_cons, Text.asBytes_singleton hascii]
    exact .character hc

end Lexeme
end XPathSyntax
