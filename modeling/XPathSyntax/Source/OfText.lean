import XPathSyntax.Count
import XPathSyntax.Lexeme
import XPathSyntax.Source

/-! A text as a source of tokens. Blanks are skipped, every lexeme gives its tokens on the line on
which it begins, and the first fault is the last item. -/

namespace XPathSyntax

def lineAfter (line : Nat) (chars : List Char) : Nat :=
  Count.add line (chars.count '\n')

theorem lineAfter_append (line : Nat) (s t : List Char) :
    lineAfter line (s ++ t) = lineAfter (lineAfter line s) t := by
  simp only [lineAfter, List.count_append, Count.add_add]

namespace Lexeme

def items (l : Lexeme) (line : Nat) : Source :=
  l.tokens.map fun (kind, value) => .token ⟨kind, value, some line⟩

end Lexeme

namespace Source

/-- The items of `chars` behind those of `done`, which are in reverse order. The text begins on
`line`, and `afterOperand` says whether an operand ends just before it. -/
def collect (line : Nat) (afterOperand : Bool) (chars : List Char) (done : Source) : Source :=
  match _h : chars.dropWhile Lexeme.isBlank with
  | [] => done.reverse
  | c :: rest =>
    let line := lineAfter line (chars.takeWhile Lexeme.isBlank)
    match _hr : Lexeme.read afterOperand c rest with
    | .error fault => (.failure (.lexical fault line) :: done).reverse
    | .ok (lexeme, after) =>
      collect (lineAfter line lexeme.text) lexeme.endsOperand after
        ((lexeme.items line).reverse ++ done)
termination_by chars.length
decreasing_by
  have skip := (List.dropWhile_suffix Lexeme.isBlank (l := chars)).length_le
  have step := Lexeme.length_lt_of_read _hr
  rw [_h] at skip
  omega

def ofChars (line : Nat) (afterOperand : Bool) (chars : List Char) : Source :=
  collect line afterOperand chars []

def ofText (text : String) : Source :=
  ofChars 1 false text.toList

theorem collect_eq (line : Nat) (afterOperand : Bool) (chars : List Char) (done : Source) :
    collect line afterOperand chars done = done.reverse ++ ofChars line afterOperand chars := by
  induction hn : chars.length using Nat.strongRecOn generalizing line afterOperand chars done with
  | ind n ih =>
    subst hn
    unfold ofChars
    rw [collect, collect]
    split
    next => simp
    next c rest h =>
      have skip := (List.dropWhile_suffix Lexeme.isBlank (l := chars)).length_le
      rw [h] at skip
      dsimp only
      split
      next => simp
      next lexeme after hr =>
        have step := Nat.lt_of_lt_of_le (Lexeme.length_lt_of_read hr) skip
        rw [ih _ step _ _ _ _ rfl, ih _ step _ _ _ _ rfl]
        simp

theorem ofChars_of_blank {line : Nat} {afterOperand : Bool} {chars : List Char}
    (h : chars.dropWhile Lexeme.isBlank = []) : ofChars line afterOperand chars = [] := by
  unfold ofChars
  rw [collect]
  split
  next => rfl
  next hc => rw [h] at hc; cases hc

theorem ofChars_of_fault {line : Nat} {afterOperand : Bool} {chars rest : List Char} {c : Char}
    {fault : LexicalFault} (h : chars.dropWhile Lexeme.isBlank = c :: rest)
    (hr : Lexeme.read afterOperand c rest = .error fault) :
    ofChars line afterOperand chars =
      [.failure (.lexical fault (lineAfter line (chars.takeWhile Lexeme.isBlank)))] := by
  unfold ofChars
  rw [collect]
  split
  next hc => rw [h] at hc; cases hc
  next hc =>
    rw [h] at hc
    cases hc
    dsimp only
    split
    next hf => rw [hr] at hf; cases hf; rfl
    next hf => rw [hr] at hf; cases hf

/-- The first lexeme gives the first tokens; the others come from the rest of the text. -/
theorem ofChars_of_lexeme {line : Nat} {afterOperand : Bool} {chars rest after : List Char}
    {c : Char} {lexeme : Lexeme} (h : chars.dropWhile Lexeme.isBlank = c :: rest)
    (hr : Lexeme.read afterOperand c rest = .ok (lexeme, after)) :
    ofChars line afterOperand chars =
      lexeme.items (lineAfter line (chars.takeWhile Lexeme.isBlank)) ++
        ofChars (lineAfter line (chars.takeWhile Lexeme.isBlank ++ lexeme.text))
          lexeme.endsOperand after := by
  conv => lhs; unfold ofChars
  rw [collect]
  split
  next hc => rw [h] at hc; cases hc
  next hc =>
    rw [h] at hc
    cases hc
    dsimp only
    split
    next hf => rw [hr] at hf; cases hf
    next hf =>
      rw [hr] at hf
      cases hf
      rw [collect_eq, lineAfter_append]
      simp

/-- What is shown of a text goes from behind its first lexeme to the whole. -/
theorem lexeme_induction {motive : Bool → List Char → Prop}
    (blank : ∀ afterOperand chars, chars.dropWhile Lexeme.isBlank = [] →
      motive afterOperand chars)
    (fault : ∀ afterOperand chars c rest fault, chars.dropWhile Lexeme.isBlank = c :: rest →
      Lexeme.read afterOperand c rest = .error fault → motive afterOperand chars)
    (lexeme : ∀ afterOperand chars c rest l after, chars.dropWhile Lexeme.isBlank = c :: rest →
      Lexeme.read afterOperand c rest = .ok (l, after) → motive l.endsOperand after →
      motive afterOperand chars)
    (afterOperand : Bool) (chars : List Char) : motive afterOperand chars := by
  induction hn : chars.length using Nat.strongRecOn generalizing afterOperand chars with
  | ind n ih =>
    subst hn
    cases hchars : chars.dropWhile Lexeme.isBlank with
    | nil => exact blank afterOperand chars hchars
    | cons c rest =>
      cases hread : Lexeme.read afterOperand c rest with
      | error fault' => exact fault afterOperand chars c rest fault' hchars hread
      | ok reading =>
        have skip := (List.dropWhile_suffix Lexeme.isBlank (l := chars)).length_le
        have step := Lexeme.length_lt_of_read hread
        rw [hchars] at skip
        refine lexeme afterOperand chars c rest _ _ hchars hread (ih _ ?_ _ _ rfl)
        exact Nat.lt_of_lt_of_le step skip

end Source
end XPathSyntax
