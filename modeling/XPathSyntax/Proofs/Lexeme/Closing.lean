import XPathSyntax.Proofs.Lexeme.Reading

/-! What a closing mark behind a text does to its lexemes. None of them goes on with such a mark, so
all of them stand as they did; only a node type whose parentheses are open is closed by it. -/

namespace XPathSyntax

open Text (Stops dropWhile_append_cons stops_cons)

/-- A text with something behind it begins as it does, or with what stands behind it. -/
theorem Text.Stops.append {p : Char → Bool} {c : Char} {rest : List Char} (h : Stops p rest)
    (hc : p c = false) (more : List Char) : Stops p (rest ++ c :: more) := by
  cases rest with
  | nil => exact stops_cons hc more
  | cons d rest => exact stops_cons (h d rfl) _

namespace Lexeme

def closers : List Char :=
  [')', ']', ',']

variable {afterOperand : Bool} {c : Char} {l : Lexeme} {chars rest : List Char}

theorem eq_false_of_closer {p : Char → Bool} (hp : closers.any p = false) (hc : c ∈ closers) :
    p c = false := by
  simpa using List.any_eq_false.1 hp c hc

theorem axisMark_of_closed (hc : c ∈ closers) {more : List Char}
    (h : AxisMark (rest ++ c :: more)) : AxisMark rest := by
  obtain ⟨tail, htail⟩ := h
  rw [dropWhile_append_cons (eq_false_of_closer rfl hc)] at htail
  match hrest : rest.dropWhile isBlank with
  | [] =>
    rw [hrest] at htail
    obtain ⟨rfl, -⟩ := List.cons.inj htail
    exact absurd hc (by decide)
  | [d] =>
    rw [hrest] at htail
    obtain ⟨rfl, -⟩ := List.cons.inj (List.cons.inj htail).2
    exact absurd hc (by decide)
  | d :: e :: others =>
    rw [hrest] at htail
    cases htail
    exact ⟨others, hrest⟩

/-- Only parentheses that are open can be closed. -/
theorem emptyParens?_closed (hc : c ∈ closers) (h : emptyParens? chars = none)
    (hopen : ∀ inner, chars = '(' :: inner → ¬∀ d ∈ inner, isBlank d = true) (more : List Char) :
    emptyParens? (chars ++ c :: more) = none := by
  rw [Option.eq_none_iff_forall_ne_some]
  rintro ⟨parens, after⟩ hparens
  obtain ⟨blanks, hblanks, -, heq⟩ := emptyParens?_eq_some hparens
  cases chars with
  | nil =>
    obtain ⟨rfl, -⟩ := List.cons.inj heq
    exact absurd hc (by decide)
  | cons d inner =>
    obtain ⟨rfl, hinner⟩ := List.cons.inj heq
    rcases List.append_eq_append_iff.1 hinner with ⟨others, rfl, -⟩ | ⟨others, rfl, hothers⟩
    · exact hopen inner rfl fun d hd => hblanks d (List.mem_append_left others hd)
    · cases others with
      | nil => exact hopen _ rfl (by simpa using hblanks)
      | cons e others =>
        obtain ⟨rfl, -⟩ := List.cons.inj hothers
        rw [emptyParens?_of_blanks hblanks] at h
        cases h

/-- In front of a closing mark a lexeme stands as it does at the end, unless nothing but an open
parenthesis comes behind it. -/
theorem Stands.closed (h : Stands afterOperand l rest) (hc : c ∈ closers)
    (hopen : ∀ inner, rest.dropWhile isBlank = '(' :: inner → ¬∀ d ∈ inner, isBlank d = true)
    (more : List Char) : Stands afterOperand l (rest ++ c :: more) := by
  have stop {p : Char → Bool} (hp : closers.any p = false) (h : Stops p rest) :
      Stops p (rest ++ c :: more) := h.append (eq_false_of_closer hp hc) more
  refine h.endsAlike ⟨stop rfl, stop rfl, stop rfl, stop rfl, stop rfl, stop rfl, ?_, ?_,
    axisMark_of_closed hc, ?_⟩
  · intro hnumber
    obtain ⟨hdigit, hpoint⟩ := beginsNumber_eq_false_iff.1 hnumber
    refine beginsNumber_eq_false_iff.2 ⟨stop rfl hdigit, ?_⟩
    intro others hothers
    cases rest with
    | nil =>
      obtain ⟨rfl, -⟩ := List.cons.inj hothers
      exact absurd hc (by decide)
    | cons d rest =>
      obtain ⟨rfl, rfl⟩ := List.cons.inj hothers
      exact (hpoint rest rfl).append (eq_false_of_closer rfl hc) more
  · intro hcolon d others hothers
    match rest with
    | [] =>
      obtain ⟨rfl, -⟩ := List.cons.inj hothers
      exact absurd hc (by decide)
    | [e] =>
      cases hothers
      exact eq_false_of_closer rfl hc
    | e :: f :: tail =>
      cases hothers
      exact hcolon d tail rfl
  · intro hempty
    rw [dropWhile_append_cons (eq_false_of_closer rfl hc)]
    exact emptyParens?_closed hc hempty hopen more

end Lexeme
end XPathSyntax
