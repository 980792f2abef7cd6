import XPathSyntax.Axis
import XPathSyntax.Error

/-! Lexemes: the pieces of a text that spell tokens. Each piece is as long as possible and gives
one token, or two where it abbreviates a step. Which token `*`, `-` and the operator names spell
depends only on whether an operand has just ended. The main statement is `read_append`: a lexeme
and what is left of the text make up the text. -/

namespace XPathSyntax

structure Lexeme where
  text : List Char
  tokens : List (Token.Kind × Option String)

namespace Lexeme

def isBlank (c : Char) : Bool :=
  c == ' ' || c == '\t' || c == '\n' || c == '\x0c' || c == '\r'

/-- Every character beyond ASCII may begin a name. -/
def beginsName (c : Char) : Bool :=
  c.isAlpha || c == '_' || 0x80 ≤ c.toNat

def continuesName (c : Char) : Bool :=
  beginsName c || c.isDigit || c == '-' || c == '.'

def bare (text : List Char) (kind : Token.Kind) : Lexeme :=
  ⟨text, [(kind, none)]⟩

def carrying (text : List Char) (kind : Token.Kind) (value : List Char) : Lexeme :=
  ⟨text, [(kind, some (String.ofList value))]⟩

def axisToken (axis : Axis) : Token.Kind × Option String :=
  (.axis, some axis.name)

def anyNode : Token.Kind × Option String :=
  (.nodeType, some "node")

def endsOperand (l : Lexeme) : Bool :=
  l.tokens.getLast?.any (·.1.endsOperand)

/-- The marks that are lexemes whatever stands around them. -/
def mark? : Char → Option Token.Kind
  | '(' => some .openParen
  | ')' => some .closeParen
  | '[' => some .openBracket
  | ']' => some .closeBracket
  | ',' => some .comma
  | '|' => some (.operator .union)
  | '+' => some (.operator .plus)
  | '=' => some (.operator .equal)
  | _ => none

def wordOperator? (afterOperand : Bool) (name : String) : Option Operator :=
  if afterOperand then [Operator.and, .or, .div, .mod].find? (·.spelling == name) else none

def nodeTypes : List String :=
  ["comment", "text", "processing-instruction", "node"]

abbrev Reading := Except LexicalFault (Lexeme × List Char)

/-- Digits, which a point and more digits may follow. A sign stands in front. -/
def readNumber (sign chars : List Char) : Lexeme × List Char :=
  let whole := sign ++ chars.takeWhile Char.isDigit
  match chars.dropWhile Char.isDigit with
  | '.' :: rest =>
    let text := whole ++ '.' :: rest.takeWhile Char.isDigit
    (carrying text .decimal text, rest.dropWhile Char.isDigit)
  | rest => (carrying whole .integer whole, rest)

def beginsNumber : List Char → Bool
  | '.' :: c :: _ => c.isDigit
  | c :: _ => c.isDigit
  | [] => false

def readLiteral (quote : Char) (chars : List Char) : Reading :=
  let content := chars.takeWhile (· != quote)
  match chars.dropWhile (· != quote) with
  | [] => .error .unterminatedLiteral
  | close :: rest => .ok (carrying (quote :: (content ++ [close])) .literal content, rest)

/-- A name behind a dollar sign, or two with a colon between them and no blank. -/
def readReference (chars : List Char) : Reading :=
  match chars with
  | [] => .error .dollarWithoutName
  | c :: _ =>
    if beginsName c then
      let first := chars.takeWhile continuesName
      match chars.dropWhile continuesName with
      | ':' :: d :: rest =>
        if beginsName d then
          let name := first ++ ':' :: (d :: rest).takeWhile continuesName
          .ok (carrying ('$' :: name) .reference name, (d :: rest).dropWhile continuesName)
        else .ok (carrying ('$' :: first) .reference first, ':' :: d :: rest)
      | rest => .ok (carrying ('$' :: first) .reference first, rest)
    else .error .dollarWithoutName

def emptyParens? : List Char → Option (List Char × List Char)
  | '(' :: inner =>
    match inner.dropWhile isBlank with
    | ')' :: rest => some ('(' :: (inner.takeWhile isBlank ++ [')']), rest)
    | _ => none
  | _ => none

def nodeTypeTest? (name rest : List Char) : Option (Lexeme × List Char) :=
  if nodeTypes.contains (String.ofList name) then
    (emptyParens? (rest.dropWhile isBlank)).map fun (parens, after) =>
      (carrying (name ++ (rest.takeWhile isBlank ++ parens)) .nodeType name, after)
  else none

/-- What a name spells in front of `rest`: an axis if `::` comes next, else an operator where one
can stand, else a node type test if empty parentheses come next, else just the name. Blanks may
stand before these marks. -/
def readName (afterOperand : Bool) (name rest : List Char) : Reading :=
  match rest.dropWhile isBlank with
  | ':' :: ':' :: after =>
    match Axis.ofName? (String.ofList name) with
    | some axis => .ok (⟨name ++ (rest.takeWhile isBlank ++ [':', ':']), [axisToken axis]⟩, after)
    | none => .error (.unknownAxis (String.ofList name))
  | _ =>
    match wordOperator? afterOperand (String.ofList name), nodeTypeTest? name rest with
    | some op, _ => .ok (bare name (.operator op), rest)
    | none, some reading => .ok reading
    | none, none => .ok (carrying name .name name, rest)

def read (afterOperand : Bool) (c : Char) (rest : List Char) : Reading :=
  match mark? c with
  | some kind => .ok (bare [c] kind, rest)
  | none =>
    match c, rest with
    | '@', _ => .ok (⟨[c], [axisToken .attributes]⟩, rest)
    | '/', '/' :: rest => .ok (⟨['/', '/'], [(.slash, none), axisToken .descendantOrSelf]⟩, rest)
    | '/', _ => .ok (bare [c] .slash, rest)
    | '*', _ =>
      if afterOperand then .ok (bare [c] (.operator .times), rest)
      else .ok (carrying [c] .name [c], rest)
    | '-', _ =>
      if !afterOperand && beginsNumber rest then .ok (readNumber [c] rest)
      else .ok (bare [c] (.operator .minus), rest)
    | '.', '.' :: rest => .ok (⟨['.', '.'], [axisToken .parent, anyNode]⟩, rest)
    | '.', _ =>
      if beginsNumber (c :: rest) then .ok (readNumber [] (c :: rest))
      else .ok (⟨[c], [axisToken .self, anyNode]⟩, rest)
    | ':', ':' :: _ => .error .axisMarkWithoutName
    | ':', _ => .ok (bare [c] .colon, rest)
    | '!', '=' :: rest => .ok (bare ['!', '='] (.operator .unequal), rest)
    | '!', _ => .error .bangWithoutEquals
    | '<', '=' :: rest => .ok (bare ['<', '='] (.operator .atMost), rest)
    | '<', _ => .ok (bare [c] (.operator .less), rest)
    | '>', '=' :: rest => .ok (bare ['>', '='] (.operator .atLeast), rest)
    | '>', _ => .ok (bare [c] (.operator .greater), rest)
    | '"', _ | '\'', _ => readLiteral c rest
    | '$', _ => readReference rest
    | _, _ =>
      if c.isDigit then .ok (readNumber [] (c :: rest))
      else if beginsName c then
        readName afterOperand ((c :: rest).takeWhile continuesName)
          ((c :: rest).dropWhile continuesName)
      else .error (.unexpectedCharacter c)

theorem readNumber_append {sign chars rest : List Char} {lexeme : Lexeme}
    (h : readNumber sign chars = (lexeme, rest)) : lexeme.text ++ rest = sign ++ chars := by
  have whole := List.takeWhile_append_dropWhile (p := Char.isDigit) (l := chars)
  unfold readNumber at h
  split at h
  next tail hd =>
    have fraction := List.takeWhile_append_dropWhile (p := Char.isDigit) (l := tail)
    rw [hd] at whole
    cases h
    simp only [carrying, List.append_assoc, List.cons_append, fraction, whole]
  next =>
    cases h
    simp only [carrying, List.append_assoc, whole]

theorem readLiteral_append {quote : Char} {chars rest : List Char} {lexeme : Lexeme}
    (h : readLiteral quote chars = .ok (lexeme, rest)) : lexeme.text ++ rest = quote :: chars := by
  have content := List.takeWhile_append_dropWhile (p := (· != quote)) (l := chars)
  unfold readLiteral at h
  split at h
  next => cases h
  next hd =>
    cases h
    rw [hd] at content
    simp [carrying, content]

theorem readReference_append {chars rest : List Char} {lexeme : Lexeme}
    (h : readReference chars = .ok (lexeme, rest)) : lexeme.text ++ rest = '$' :: chars := by
  have first := List.takeWhile_append_dropWhile (p := continuesName) (l := chars)
  unfold readReference at h
  split at h
  next => cases h
  next =>
    split at h
    next =>
      split at h
      next d tail hd =>
        rw [hd] at first
        have second := List.takeWhile_append_dropWhile (p := continuesName) (l := d :: tail)
        split at h
        next => cases h; simp only [carrying, List.cons_append, List.append_assoc, second, first]
        next => cases h; simp only [carrying, List.cons_append, first]
      next => cases h; simp only [carrying, List.cons_append, first]
    next => cases h

theorem emptyParens?_append {chars parens rest : List Char}
    (h : emptyParens? chars = some (parens, rest)) : parens ++ rest = chars := by
  unfold emptyParens? at h
  split at h
  next inner =>
    have blanks := List.takeWhile_append_dropWhile (p := isBlank) (l := inner)
    split at h
    next hd =>
      cases h
      rw [hd] at blanks
      simp only [List.cons_append, List.append_assoc, List.nil_append, blanks]
    next => cases h
  next => cases h

theorem nodeTypeTest?_append {name chars rest : List Char} {lexeme : Lexeme}
    (h : nodeTypeTest? name chars = some (lexeme, rest)) : lexeme.text ++ rest = name ++ chars := by
  unfold nodeTypeTest? at h
  split at h
  next =>
    obtain ⟨⟨parens, after⟩, hp, he⟩ := Option.map_eq_some_iff.1 h
    cases he
    simp only [carrying, List.append_assoc, emptyParens?_append hp,
      List.takeWhile_append_dropWhile]
  next => cases h

theorem readName_append {afterOperand : Bool} {name chars rest : List Char} {lexeme : Lexeme}
    (h : readName afterOperand name chars = .ok (lexeme, rest)) :
    lexeme.text ++ rest = name ++ chars := by
  have gap := List.takeWhile_append_dropWhile (p := isBlank) (l := chars)
  unfold readName at h
  split at h
  next hd =>
    rw [hd] at gap
    split at h
    next => cases h; simp only [List.append_assoc, List.cons_append, List.nil_append, gap]
    next => cases h
  next =>
    split at h
    next => cases h; rfl
    next ht => cases h; exact nodeTypeTest?_append ht
    next => cases h; rfl

/-- A lexeme and the rest of the text make up the text. -/
theorem read_append {afterOperand : Bool} {c : Char} {chars rest : List Char} {lexeme : Lexeme}
    (h : read afterOperand c chars = .ok (lexeme, rest)) : lexeme.text ++ rest = c :: chars := by
  unfold read at h
  split at h
  next => cases h; rfl
  next =>
    split at h
    all_goals try (cases h <;> rfl)
    all_goals first | exact readLiteral_append h | exact readReference_append h | split at h
    all_goals try (cases h <;> rfl)
    all_goals try exact readNumber_append (Except.ok.inj h)
    split at h
    · exact (readName_append h).trans List.takeWhile_append_dropWhile
    · cases h

theorem readNumber_text_ne_nil {sign chars rest : List Char} {lexeme : Lexeme}
    (hs : sign ≠ [] ∨ beginsNumber chars = true) (h : readNumber sign chars = (lexeme, rest)) :
    lexeme.text ≠ [] := by
  unfold readNumber at h
  split at h
  next => cases h; simp [carrying]
  next hd =>
    cases h
    rcases hs with hs | hs
    · simp [carrying, hs]
    · unfold beginsNumber at hs
      split at hs
      next => exact absurd rfl (hd _)
      next => simp [carrying, hs]
      next => cases hs

theorem beginsNumber_of_isDigit {c : Char} {chars : List Char} (h : c.isDigit = true) :
    beginsNumber (c :: chars) = true := by
  unfold beginsNumber
  split <;> simp_all

theorem readLiteral_text_ne_nil {quote : Char} {chars rest : List Char} {lexeme : Lexeme}
    (h : readLiteral quote chars = .ok (lexeme, rest)) : lexeme.text ≠ [] := by
  unfold readLiteral at h
  split at h <;> cases h
  exact List.cons_ne_nil _ _

theorem readReference_text_ne_nil {chars rest : List Char} {lexeme : Lexeme}
    (h : readReference chars = .ok (lexeme, rest)) : lexeme.text ≠ [] := by
  unfold readReference at h
  repeat' split at h
  all_goals cases h
  all_goals exact List.cons_ne_nil _ _

theorem readName_text_ne_nil {afterOperand : Bool} {name chars rest : List Char} {lexeme : Lexeme}
    (hn : name ≠ []) (h : readName afterOperand name chars = .ok (lexeme, rest)) :
    lexeme.text ≠ [] := by
  unfold readName at h
  split at h
  next =>
    split at h <;> cases h
    exact List.append_ne_nil_of_left_ne_nil hn _
  next =>
    split at h
    next => cases h; exact hn
    next ht =>
      cases h
      unfold nodeTypeTest? at ht
      split at ht
      next =>
        obtain ⟨_, _, he⟩ := Option.map_eq_some_iff.1 ht
        cases he
        exact List.append_ne_nil_of_left_ne_nil hn _
      next => cases ht
    next => cases h; exact hn

theorem takeWhile_ne_nil {p : Char → Bool} {c : Char} {chars : List Char} (h : p c = true) :
    (c :: chars).takeWhile p ≠ [] := by
  simp [h]

theorem read_text_ne_nil {afterOperand : Bool} {c : Char} {chars rest : List Char} {lexeme : Lexeme}
    (h : read afterOperand c chars = .ok (lexeme, rest)) : lexeme.text ≠ [] := by
  unfold read at h
  split at h
  next => cases h; exact List.cons_ne_nil _ _
  next =>
    split at h
    all_goals try (cases h <;> exact List.cons_ne_nil _ _)
    all_goals
      first | exact readLiteral_text_ne_nil h | exact readReference_text_ne_nil h | split at h
    all_goals try (cases h <;> exact List.cons_ne_nil _ _)
    next => exact readNumber_text_ne_nil (.inl (List.cons_ne_nil _ _)) (Except.ok.inj h)
    next hd => exact readNumber_text_ne_nil (.inr (beginsNumber_of_isDigit hd)) (Except.ok.inj h)
    next =>
      split at h
      next hb => exact readName_text_ne_nil (takeWhile_ne_nil (by simp [continuesName, hb])) h
      next => cases h

/-- Reading a lexeme leaves less to be read. -/
theorem length_lt_of_read {afterOperand : Bool} {c : Char} {chars rest : List Char}
    {lexeme : Lexeme} (h : read afterOperand c chars = .ok (lexeme, rest)) :
    rest.length < (c :: chars).length := by
  rw [← read_append h, List.length_append]
  have := List.length_pos_iff.2 (read_text_ne_nil h)
  omega

end Lexeme
end XPathSyntax
