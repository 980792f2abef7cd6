import XPathSyntax.Proofs.Lexeme.Faults
import XPathSyntax.Proofs.Text.Layout

/-! Lexemes and layout. Where a text differs from another in its layout only, the same lexeme stands
at the beginning of both, with other blanks in it if it has some; and where no lexeme stands in the
one, none stands in the other, for the same reason. -/

namespace XPathSyntax

open Text (Respaced Stops isPlain isPlain_of_continuesName)

namespace Lexeme

variable {sameLines : Prop} {afterOperand : Bool} {c : Char} {l : Lexeme}
  {chars chars' rest rest' : List Char} {fault : LexicalFault}

theorem AxisMark.respaced (h : AxisMark chars) (hs : Respaced sameLines chars chars') :
    AxisMark chars' := by
  obtain ⟨more, hmore⟩ := h
  have body := hs.trim.body
  rw [hmore] at body
  obtain ⟨t, ht, h⟩ := body.plain_inv rfl
  obtain ⟨more', rfl, -⟩ := h.plain_inv rfl
  exact ⟨more', ht⟩

theorem emptyParens?_respaced (h : emptyParens? chars = none)
    (hs : Respaced sameLines chars chars') : emptyParens? chars' = none := by
  rw [Option.eq_none_iff_forall_ne_some]
  rintro ⟨parens, rest⟩ hparens
  obtain ⟨blanks, hblanks, -, rfl⟩ := emptyParens?_eq_some hparens
  obtain ⟨t, rfl, ht⟩ := hs.symm.plain_inv rfl
  obtain ⟨blanks', after, rfl, hgaps, -⟩ := ht.blanks_inv hblanks rfl
  rw [emptyParens?_of_blanks hgaps.right] at h
  cases h

theorem beginsNumber_respaced (h : beginsNumber chars = false)
    (hs : Respaced sameLines chars chars') : beginsNumber chars' = false := by
  rw [beginsNumber_eq_false_iff] at h ⊢
  refine ⟨hs.stops rfl h.1, ?_⟩
  rintro more' rfl
  obtain ⟨more, rfl, hmore⟩ := hs.symm.plain_inv rfl
  exact hmore.symm.stops rfl (h.2 more rfl)

/-- In the other text stands a lexeme with the same tokens and as many line ends, and what comes
behind it differs in the layout only. -/
def StandsIn (sameLines : Prop) (afterOperand : Bool) (l : Lexeme) (rest chars' : List Char) :
    Prop :=
  ∃ l' rest', chars' = l'.text ++ rest' ∧ Stands afterOperand l' rest' ∧ l'.tokens = l.tokens ∧
    (sameLines → l'.text.count '\n' = l.text.count '\n') ∧ Respaced sameLines rest rest'

/-- A lexeme that has no blanks stands in the other text as it is. -/
theorem standsIn_same (hplain : l.text.all isPlain = true)
    (hs : Respaced sameLines (l.text ++ rest) chars')
    (hl : ∀ rest', Respaced sameLines rest rest' → Stands afterOperand l rest') :
    StandsIn sameLines afterOperand l rest chars' := by
  obtain ⟨rest', rfl, hrest⟩ := hs.append_inv hplain
  exact ⟨l, rest', rfl, hl rest' hrest, rfl, fun _ => rfl, hrest⟩

theorem isPlain_of_mark {kind : Token.Kind} (h : mark? c = some kind) : isPlain c = true := by
  unfold mark? at h
  split at h
  all_goals first | rfl | cases h

theorem allPlain_of_sign {sign : List Char} (h : Sign afterOperand sign) :
    sign.all isPlain = true := by
  rcases h with rfl | ⟨rfl, -⟩ <;> rfl

theorem allPlain_of_digits {digits : List Char} (h : ∀ c ∈ digits, c.isDigit = true) :
    digits.all isPlain = true :=
  List.all_eq_true.2 fun c hc => isPlain_of_continuesName (by simp [continuesName, h c hc])

theorem allPlain_of_isName {name : List Char} (h : Text.isName name = true) :
    name.all isPlain = true := by
  obtain ⟨-, -, -, -, hall⟩ := Text.isName_iff.1 h
  exact List.all_eq_true.2 fun c hc => isPlain_of_continuesName (hall c hc)

theorem Stands.respaced (h : Stands afterOperand l rest)
    (hs : Respaced sameLines (l.text ++ rest) chars') :
    StandsIn sameLines afterOperand l rest chars' := by
  cases h with
  | mark hm =>
    refine standsIn_same ?_ hs fun _ _ => .mark hm
    simpa [bare] using isPlain_of_mark hm
  | attributes => exact standsIn_same rfl hs fun _ _ => .attributes
  | slashes => exact standsIn_same rfl hs fun _ _ => .slashes
  | slash hstop =>
    exact standsIn_same rfl hs fun _ h => .slash (h.stops rfl hstop)
  | times hao => exact standsIn_same rfl hs fun _ _ => .times hao
  | star hao => exact standsIn_same rfl hs fun _ _ => .star hao
  | minus hnumber =>
    exact standsIn_same rfl hs fun _ h =>
      .minus fun hao => beginsNumber_respaced (hnumber hao) h
  | @integer sign digits _ hsign hne hdigits hstop =>
    refine standsIn_same ?_ hs fun _ h => .integer hsign hne hdigits (h.stops rfl hstop)
    rw [carrying, List.all_append, allPlain_of_sign hsign, allPlain_of_digits hdigits]
    rfl
  | @decimal sign whole fraction _ hsign hne hwhole hfraction hstop =>
    refine standsIn_same ?_ hs fun _ h =>
      .decimal hsign hne hwhole hfraction (h.stops rfl hstop)
    rw [carrying, List.all_append, List.all_append, List.all_cons, allPlain_of_sign hsign,
      allPlain_of_digits hwhole, allPlain_of_digits hfraction]
    rfl
  | parent => exact standsIn_same rfl hs fun _ _ => .parent
  | self hstop => exact standsIn_same rfl hs fun _ h => .self (h.stops rfl hstop)
  | colon hstop =>
    exact standsIn_same rfl hs fun _ h => .colon (h.stops rfl hstop)
  | unequal => exact standsIn_same rfl hs fun _ _ => .unequal
  | atMost => exact standsIn_same rfl hs fun _ _ => .atMost
  | less hstop => exact standsIn_same rfl hs fun _ h => .less (h.stops rfl hstop)
  | atLeast => exact standsIn_same rfl hs fun _ _ => .atLeast
  | greater hstop =>
    exact standsIn_same rfl hs fun _ h => .greater (h.stops rfl hstop)
  | @literal quote content _ hq hcontent =>
    rw [carrying, List.cons_append, List.append_assoc, List.singleton_append] at hs
    obtain ⟨t, rfl, ht⟩ := hs.literal_inv (Text.isQuote_iff.2 hq) hcontent
    exact ⟨_, t, by simp [carrying], .literal hq hcontent, rfl, fun _ => rfl, ht⟩
  | reference hname hstop hcolon =>
    refine standsIn_same ?_ hs fun rest' h => .reference hname (h.stops rfl hstop) ?_
    · rw [carrying, List.all_cons, allPlain_of_isName hname]
      rfl
    · -- a name behind a colon here would be one there
      rintro c more rfl
      rw [Bool.eq_false_iff]
      intro hc
      obtain ⟨t, rfl, ht⟩ := h.symm.plain_inv rfl
      obtain ⟨u, rfl, -⟩ := ht.plain_inv (isPlain_of_continuesName (by simp [continuesName, hc]))
      rw [hcolon c u rfl] at hc
      cases hc
  | qualifiedReference hqualifier hname hstop =>
    refine standsIn_same ?_ hs fun _ h =>
      .qualifiedReference hqualifier hname (h.stops rfl hstop)
    rw [carrying, List.all_cons, List.all_append, List.all_cons, allPlain_of_isName hqualifier,
      allPlain_of_isName hname]
    rfl
  | @axis axis blanks _ hblanks =>
    simp only [List.append_assoc, List.cons_append, List.nil_append] at hs
    obtain ⟨t, rfl, ht⟩ := hs.append_inv (allPlain_of_isName (isName_axis axis))
    obtain ⟨blanks', u, rfl, hgaps, hu⟩ := ht.blanks_inv hblanks rfl
    obtain ⟨rest', rfl, hrest⟩ := hu.plain_inv rfl
    refine ⟨_, rest', by simp, .axis hgaps.right, rfl, fun hl => ?_, hrest⟩
    simp only [List.count_append, hgaps.lines hl]
  | word hao hop hstop hmark =>
    refine standsIn_same (allPlain_of_isName (isName_word hop)) hs fun _ h => ?_
    exact .word hao hop (h.stops rfl hstop) fun hm => hmark (hm.respaced h.symm)
  | @nodeType name blanks inner _ hname hblanks hinner =>
    simp only [carrying, List.append_assoc, List.cons_append, List.nil_append] at hs
    obtain ⟨t, rfl, ht⟩ := hs.append_inv (allPlain_of_isName (isName_nodeType hname))
    obtain ⟨blanks', u, rfl, hgaps, hu⟩ := ht.blanks_inv hblanks rfl
    obtain ⟨inner', rest', rfl, hgaps', hrest⟩ := hu.blanks_inv hinner rfl
    refine ⟨_, rest', by simp [carrying], .nodeType hname hgaps.right hgaps'.right, rfl,
      fun hl => ?_, hrest⟩
    simp only [carrying, List.count_append, List.count_cons, hgaps.lines hl, hgaps'.lines hl]
  | name hname hstop hmark hop hempty =>
    refine standsIn_same (allPlain_of_isName hname) hs fun rest' h => ?_
    exact .name hname (h.stops rfl hstop) (fun hm => hmark (hm.respaced h.symm)) hop
      fun hmem => emptyParens?_respaced (hempty hmem) h.trim.body

/-- Where no lexeme stands, none stands in the other text, for the same reason. -/
theorem Fails.respaced (h : Fails chars fault) (hstop : Stops isBlank chars)
    (hs : Respaced sameLines chars chars') : Fails chars' fault := by
  cases h with
  | axisMark =>
    obtain ⟨t, rfl, ht⟩ := hs.plain_inv rfl
    obtain ⟨rest', rfl, -⟩ := ht.plain_inv rfl
    exact .axisMark
  | bang h =>
    obtain ⟨rest', rfl, hrest⟩ := hs.plain_inv rfl
    exact .bang (hrest.stops rfl h)
  | literal hq hcontent =>
    obtain ⟨content', rfl, hcontent'⟩ := hs.unclosed_inv (Text.isQuote_iff.2 hq) hcontent
    exact .literal hq hcontent'
  | dollar h =>
    obtain ⟨rest', rfl, hrest⟩ := hs.plain_inv rfl
    exact .dollar (hrest.stops rfl h)
  | axis hname h hmark haxis =>
    obtain ⟨rest', rfl, hrest⟩ := hs.append_inv (allPlain_of_isName hname)
    exact .axis hname (hrest.stops rfl h) (hmark.respaced hrest) haxis
  | @character c rest hc =>
    have quote : Text.isQuote c = false := by
      rw [Bool.eq_false_iff]
      intro hq
      rcases Text.isQuote_iff.1 hq with rfl | rfl <;> cases hc
    obtain ⟨rest', rfl, -⟩ := hs.plain_inv (by rw [isPlain, hstop c rfl, quote]; rfl)
    exact .character hc

end Lexeme

end XPathSyntax
