import XPathSyntax.Proofs.Lexeme.Reading

/-! What comes behind a slash does not matter to the lexemes in front of it: reading never looks
past a slash to find out what a lexeme is. -/

namespace XPathSyntax

open Text (Stops)

namespace Lexeme

variable {afterOperand : Bool} {l : Lexeme} {before after : List Char}

theorem cons_before_slash {c : Char} {more : List Char} (h : before ++ '/' :: after = c :: more)
    (hc : c ≠ '/') : ∃ others, before = c :: others ∧ more = others ++ '/' :: after := by
  cases before with
  | nil => exact absurd (List.cons.inj h).1.symm hc
  | cons d others =>
    obtain ⟨rfl, rfl⟩ := List.cons.inj h
    exact ⟨others, rfl, rfl⟩

theorem stops_before_slash {p : Char → Bool} (h : Stops p (before ++ '/' :: after))
    (after' : List Char) : Stops p (before ++ '/' :: after') := by
  cases before with
  | nil => exact h
  | cons => exact h

theorem dropWhile_before_slash (before after : List Char) :
    (before ++ '/' :: after).dropWhile isBlank = before.dropWhile isBlank ++ '/' :: after :=
  Text.dropWhile_append_cons rfl before after

theorem axisMark_before_slash (h : AxisMark (before ++ '/' :: after)) (after' : List Char) :
    AxisMark (before ++ '/' :: after') := by
  obtain ⟨more, hmore⟩ := h
  rw [dropWhile_before_slash] at hmore
  obtain ⟨others, hbefore, hmore⟩ := cons_before_slash hmore (by decide)
  obtain ⟨others, rfl, -⟩ := cons_before_slash hmore.symm (by decide)
  refine ⟨others ++ '/' :: after', ?_⟩
  rw [dropWhile_before_slash, hbefore]
  rfl

theorem emptyParens?_before_slash (h : emptyParens? (before ++ '/' :: after) = none)
    (after' : List Char) : emptyParens? (before ++ '/' :: after') = none := by
  rw [Option.eq_none_iff_forall_ne_some]
  rintro ⟨parens, rest⟩ hparens
  obtain ⟨blanks, hblanks, -, heq⟩ := emptyParens?_eq_some hparens
  obtain ⟨others, rfl, hothers⟩ := cons_before_slash heq (by decide)
  rcases List.append_eq_append_iff.1 hothers with ⟨tail, rfl, htail⟩ | ⟨tail, rfl, htail⟩
  · cases tail with
    | nil => cases htail
    | cons d tail =>
      obtain ⟨rfl, -⟩ := List.cons.inj htail
      rw [List.cons_append, List.append_assoc, List.cons_append,
        emptyParens?_of_blanks hblanks] at h
      cases h
  · cases tail with
    | nil => cases htail
    | cons d tail =>
      obtain ⟨rfl, -⟩ := List.cons.inj htail
      have hblank := hblanks '/' (by simp)
      cases hblank

/-- What a lexeme is does not depend on what comes behind the next slash. -/
theorem Stands.before_slash (h : Stands afterOperand l (before ++ '/' :: after))
    (after' : List Char) : Stands afterOperand l (before ++ '/' :: after') := by
  have stop {p : Char → Bool} (h : Stops p (before ++ '/' :: after)) :
      Stops p (before ++ '/' :: after') := stops_before_slash h after'
  refine h.endsAlike ⟨stop, stop, stop, stop, stop, stop, ?_, ?_,
    fun hm => axisMark_before_slash hm after, ?_⟩
  · intro hnumber
    obtain ⟨hdigit, hpoint⟩ := beginsNumber_eq_false_iff.1 hnumber
    refine beginsNumber_eq_false_iff.2 ⟨stop hdigit, ?_⟩
    intro more hmore
    obtain ⟨others, rfl, rfl⟩ := cons_before_slash hmore (by decide)
    exact stops_before_slash (hpoint _ rfl) after'
  · intro hcolon d more hmore
    obtain ⟨others, rfl, hothers⟩ := cons_before_slash hmore (by decide)
    cases others with
    | nil =>
      obtain ⟨rfl, -⟩ := List.cons.inj hothers
      rfl
    | cons e others =>
      obtain ⟨rfl, -⟩ := List.cons.inj hothers
      exact hcolon _ _ rfl
  · rw [dropWhile_before_slash, dropWhile_before_slash]
    exact fun hempty => emptyParens?_before_slash hempty after'

end Lexeme
end XPathSyntax
