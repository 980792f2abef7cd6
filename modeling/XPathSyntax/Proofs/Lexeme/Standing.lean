import XPathSyntax.Proofs.Text.Classes

/-! Where lexemes stand. Which lexemes there are, and in front of what each of them can stand, is
said once and without reference to how they are found. Whatever is read stands where it has been
read. -/

namespace XPathSyntax

def Operator.isWord : Operator → Bool
  | and | or | div | mod => true
  | _ => false

namespace Lexeme

open Text (Stops stops_dropWhile mem_takeWhile isName_takeWhile)

def AxisMark (rest : List Char) : Prop :=
  ∃ more, rest.dropWhile isBlank = ':' :: ':' :: more

/-- A sign belongs to a number only where no operand has ended. -/
def Sign (afterOperand : Bool) (sign : List Char) : Prop :=
  sign = [] ∨ sign = ['-'] ∧ afterOperand = false

/-- `l` is the lexeme in front of `rest`. -/
inductive Stands (afterOperand : Bool) : Lexeme → List Char → Prop where
  | mark {c kind rest} : mark? c = some kind → Stands afterOperand (bare [c] kind) rest
  | attributes {rest} : Stands afterOperand ⟨['@'], [axisToken .attributes]⟩ rest
  | slashes {rest} :
      Stands afterOperand ⟨['/', '/'], [(.slash, none), axisToken .descendantOrSelf]⟩ rest
  | slash {rest} : Stops (· == '/') rest → Stands afterOperand (bare ['/'] .slash) rest
  | times {rest} : afterOperand = true → Stands afterOperand (bare ['*'] (.operator .times)) rest
  | star {rest} : afterOperand = false → Stands afterOperand (carrying ['*'] .name ['*']) rest
  | minus {rest} : (afterOperand = false → beginsNumber rest = false) →
      Stands afterOperand (bare ['-'] (.operator .minus)) rest
  | integer {sign digits rest} : Sign afterOperand sign → digits ≠ [] →
      (∀ c ∈ digits, c.isDigit = true) → Stops (fun c => c.isDigit || c == '.') rest →
      Stands afterOperand (carrying (sign ++ digits) .integer (sign ++ digits)) rest
  | decimal {sign whole fraction rest} : Sign afterOperand sign → whole ≠ [] ∨ fraction ≠ [] →
      (∀ c ∈ whole, c.isDigit = true) → (∀ c ∈ fraction, c.isDigit = true) →
      Stops Char.isDigit rest →
      Stands afterOperand
        (carrying (sign ++ whole ++ '.' :: fraction) .decimal (sign ++ whole ++ '.' :: fraction))
        rest
  | parent {rest} : Stands afterOperand ⟨['.', '.'], [axisToken .parent, anyNode]⟩ rest
  | self {rest} : Stops (fun c => c.isDigit || c == '.') rest →
      Stands afterOperand ⟨['.'], [axisToken .self, anyNode]⟩ rest
  | colon {rest} : Stops (· == ':') rest → Stands afterOperand (bare [':'] .colon) rest
  | unequal {rest} : Stands afterOperand (bare ['!', '='] (.operator .unequal)) rest
  | atMost {rest} : Stands afterOperand (bare ['<', '='] (.operator .atMost)) rest
  | less {rest} : Stops (· == '=') rest → Stands afterOperand (bare ['<'] (.operator .less)) rest
  | atLeast {rest} : Stands afterOperand (bare ['>', '='] (.operator .atLeast)) rest
  | greater {rest} : Stops (· == '=') rest →
      Stands afterOperand (bare ['>'] (.operator .greater)) rest
  | literal {quote content rest} : quote = '\x22' ∨ quote = '\'' → quote ∉ content →
      Stands afterOperand (carrying (quote :: (content ++ [quote])) .literal content) rest
  | reference {name rest} : Text.isName name = true → Stops continuesName rest →
      (∀ c more, rest = ':' :: c :: more → beginsName c = false) →
      Stands afterOperand (carrying ('$' :: name) .reference name) rest
  | qualifiedReference {qualifier name rest} : Text.isName qualifier = true →
      Text.isName name = true → Stops continuesName rest →
      Stands afterOperand
        (carrying ('$' :: (qualifier ++ ':' :: name)) .reference (qualifier ++ ':' :: name)) rest
  | axis {axis : Axis} {blanks rest} : (∀ c ∈ blanks, isBlank c = true) →
      Stands afterOperand ⟨axis.name.toList ++ (blanks ++ [':', ':']), [axisToken axis]⟩ rest
  | word {op : Operator} {rest} : afterOperand = true → op.isWord = true →
      Stops continuesName rest → ¬AxisMark rest →
      Stands afterOperand (bare op.spelling.toList (.operator op)) rest
  | nodeType {name blanks inner rest} : String.ofList name ∈ nodeTypes →
      (∀ c ∈ blanks, isBlank c = true) → (∀ c ∈ inner, isBlank c = true) →
      Stands afterOperand
        (carrying (name ++ (blanks ++ '(' :: (inner ++ [')']))) .nodeType name) rest
  | name {name rest} : Text.isName name = true → Stops continuesName rest → ¬AxisMark rest →
      wordOperator? afterOperand (String.ofList name) = none →
      (String.ofList name ∈ nodeTypes → emptyParens? (rest.dropWhile isBlank) = none) →
      Stands afterOperand (carrying name .name name) rest

variable {afterOperand : Bool} {c : Char} {chars rest : List Char} {l : Lexeme}

/-- No number begins where neither a digit nor a point before a digit does. -/
theorem beginsNumber_eq_false_iff : beginsNumber chars = false ↔
    Stops Char.isDigit chars ∧ ∀ more, chars = '.' :: more → Stops Char.isDigit more := by
  constructor
  · intro h
    refine ⟨?_, ?_⟩
    · intro c hc
      obtain ⟨more, rfl⟩ := List.head?_eq_some_iff.1 hc
      rw [Bool.eq_false_iff]
      intro hd
      rw [beginsNumber_of_isDigit hd] at h
      cases h
    · rintro more rfl c hc
      obtain ⟨more, rfl⟩ := List.head?_eq_some_iff.1 hc
      exact h
  · rintro ⟨hfirst, hsecond⟩
    unfold beginsNumber
    split
    next c more => exact hsecond (c :: more) rfl c rfl
    next c more _ => exact hfirst c rfl
    next => rfl

theorem stands_of_readNumber {sign : List Char} (hs : Sign afterOperand sign)
    (hb : beginsNumber chars = true) (h : readNumber sign chars = (l, rest)) :
    Stands afterOperand l rest := by
  have whole {c} (hc : c ∈ chars.takeWhile Char.isDigit) : c.isDigit = true := mem_takeWhile hc
  have stop := stops_dropWhile Char.isDigit chars
  unfold readNumber at h
  split at h
  next tail hd =>
    cases h
    refine .decimal hs ?_ (fun _ => whole) (fun _ => mem_takeWhile) (stops_dropWhile _ _)
    -- only a point without digits before it needs one behind it
    unfold beginsNumber at hb
    split at hb
    next d more =>
      simp at hd
      subst hd
      simp [hb]
    next => simp [hb]
    next => cases hb
  next hd =>
    cases h
    refine .integer hs ?_ (fun _ => whole) ?_
    · unfold beginsNumber at hb
      split at hb
      next => exact absurd rfl (hd _)
      next => simp [hb]
      next => cases hb
    · intro c hc
      have hdigit := stop c hc
      have hpoint : c ≠ '.' := by
        rintro rfl
        obtain ⟨tail, ht⟩ := List.head?_eq_some_iff.1 hc
        exact hd tail ht
      simp [hdigit, hpoint]

theorem stands_of_readLiteral {quote : Char} (hq : quote = '\x22' ∨ quote = '\'')
    (h : readLiteral quote chars = .ok (l, rest)) : Stands afterOperand l rest := by
  have stop := stops_dropWhile (· != quote) chars
  unfold readLiteral at h
  split at h
  next => cases h
  next close tail hd =>
    cases h
    have hclose : close = quote := by simpa using stop close (by rw [hd]; rfl)
    rw [hclose]
    refine .literal hq ?_
    intro hmem
    simpa using mem_takeWhile hmem

theorem stands_of_readReference (h : readReference chars = .ok (l, rest)) :
    Stands afterOperand l rest := by
  have stop := stops_dropWhile continuesName chars
  unfold readReference at h
  split at h
  next => cases h
  next c tail =>
    split at h
    next hc =>
      have hname : Text.isName ((c :: tail).takeWhile continuesName) = true := isName_takeWhile hc
      split at h
      next d more hd =>
        split at h
        next hb =>
          cases h
          exact .qualifiedReference hname (isName_takeWhile hb) (stops_dropWhile _ _)
        next hb =>
          cases h
          rw [hd] at stop
          refine .reference hname stop ?_
          intro e more' he
          cases he
          simpa using hb
      next hd =>
        cases h
        refine .reference hname stop ?_
        intro e more' he
        exact absurd he (hd e more')
    next => cases h

theorem wordOperator?_eq_some {name : String} {op : Operator}
    (h : wordOperator? afterOperand name = some op) :
    afterOperand = true ∧ op.isWord = true ∧ op.spelling = name := by
  unfold wordOperator? at h
  split at h
  next hao =>
    refine ⟨hao, ?_, by simpa using List.find?_some h⟩
    have hmem := List.mem_of_find?_eq_some h
    revert hmem
    cases op <;> decide
  next => cases h

theorem emptyParens?_eq_some {parens : List Char} (h : emptyParens? chars = some (parens, rest)) :
    ∃ blanks, (∀ c ∈ blanks, isBlank c = true) ∧ parens = '(' :: (blanks ++ [')']) ∧
      chars = '(' :: (blanks ++ ')' :: rest) := by
  unfold emptyParens? at h
  split at h
  next inner =>
    have parts := List.takeWhile_append_dropWhile (p := isBlank) (l := inner)
    split at h
    next hd =>
      cases h
      rw [hd] at parts
      exact ⟨_, fun _ => mem_takeWhile, rfl, by rw [parts]⟩
    next => cases h
  next => cases h

theorem stands_of_readName {name : List Char} (hname : Text.isName name = true)
    (hstop : Stops continuesName chars) (h : readName afterOperand name chars = .ok (l, rest)) :
    Stands afterOperand l rest := by
  unfold readName at h
  split at h
  next after hd =>
    split at h
    next axis ha =>
      cases h
      have hn : name = axis.name.toList := by
        rw [Axis.ofName?_eq_some_iff.1 ha, String.toList_ofList]
      rw [hn]
      exact .axis fun _ => mem_takeWhile
    next => cases h
  next hd =>
    have hmark : ¬AxisMark chars := fun ⟨more, hm⟩ => hd more hm
    split at h
    next op hop =>
      cases h
      obtain ⟨hao, hw, hs⟩ := wordOperator?_eq_some hop
      have hn : name = op.spelling.toList := by rw [hs, String.toList_ofList]
      rw [hn]
      exact .word hao hw hstop hmark
    next ht =>
      cases h
      unfold nodeTypeTest? at ht
      split at ht
      next hmem =>
        obtain ⟨⟨parens, after⟩, hp, he⟩ := Option.map_eq_some_iff.1 ht
        cases he
        obtain ⟨inner, hinner, rfl, -⟩ := emptyParens?_eq_some hp
        exact .nodeType (by simpa using hmem) (fun _ => mem_takeWhile) hinner
      next => cases ht
    next hop ht =>
      cases h
      refine .name hname hstop hmark hop ?_
      intro hmem
      unfold nodeTypeTest? at ht
      rw [if_pos (by simpa using hmem)] at ht
      simpa using ht

theorem stands_of_read (h : read afterOperand c chars = .ok (l, rest)) :
    Stands afterOperand l rest := by
  have differs {d : Char} (hd : ∀ more, chars = d :: more → False) : Stops (· == d) chars := by
    intro e he
    obtain ⟨more, hm⟩ := List.head?_eq_some_iff.1 he
    have : e ≠ d := by
      rintro rfl
      exact hd more hm
    simpa using this
  unfold read at h
  split at h
  next kind hm =>
    cases h
    exact .mark hm
  next =>
    split at h
    next => cases h; exact .attributes
    next => cases h; exact .slashes
    next hne => cases h; exact .slash (differs hne)
    next =>
      split at h
      next hao => cases h; exact .times hao
      next hao => cases h; exact .star (by simpa using hao)
    next =>
      split at h
      next hb =>
        simp only [Bool.and_eq_true, Bool.not_eq_true'] at hb
        exact stands_of_readNumber (.inr ⟨rfl, hb.1⟩) hb.2 (Except.ok.inj h)
      next hb => cases h; exact .minus (by simpa using hb)
    next => cases h; exact .parent
    next hne =>
      split at h
      next hb => exact stands_of_readNumber (.inl rfl) hb (Except.ok.inj h)
      next hb =>
        cases h
        refine .self ?_
        intro d hd
        obtain ⟨more, rfl⟩ := List.head?_eq_some_iff.1 hd
        have hdigit : d.isDigit = false := by simpa [beginsNumber] using hb
        have hpoint := differs hne d rfl
        simp [hdigit, hpoint]
    next => cases h
    next hne => cases h; exact .colon (differs hne)
    next => cases h; exact .unequal
    next => cases h
    next => cases h; exact .atMost
    next hne => cases h; exact .less (differs hne)
    next => cases h; exact .atLeast
    next hne => cases h; exact .greater (differs hne)
    next => exact stands_of_readLiteral (.inl rfl) h
    next => exact stands_of_readLiteral (.inr rfl) h
    next => exact stands_of_readReference h
    next =>
      split at h
      next hd =>
        exact stands_of_readNumber (.inl rfl) (beginsNumber_of_isDigit hd) (Except.ok.inj h)
      next =>
        split at h
        next hb => exact stands_of_readName (isName_takeWhile hb) (stops_dropWhile _ _) h
        next => cases h

/-- What reading looks for behind a lexeme and does not find in `rest`, it does not find in `rest'`
either. -/
structure EndsAlike (rest rest' : List Char) : Prop where
  slash : Stops (· == '/') rest → Stops (· == '/') rest'
  colon : Stops (· == ':') rest → Stops (· == ':') rest'
  equals : Stops (· == '=') rest → Stops (· == '=') rest'
  digit : Stops Char.isDigit rest → Stops Char.isDigit rest'
  digitOrPoint : Stops (fun c => c.isDigit || c == '.') rest →
    Stops (fun c => c.isDigit || c == '.') rest'
  name : Stops continuesName rest → Stops continuesName rest'
  number : beginsNumber rest = false → beginsNumber rest' = false
  qualified : (∀ c more, rest = ':' :: c :: more → beginsName c = false) →
    ∀ c more, rest' = ':' :: c :: more → beginsName c = false
  axisMark : AxisMark rest' → AxisMark rest
  parens : emptyParens? (rest.dropWhile isBlank) = none →
    emptyParens? (rest'.dropWhile isBlank) = none

/-- A lexeme in front of the one stands in front of the other. -/
theorem Stands.endsAlike {rest' : List Char} (h : Stands afterOperand l rest)
    (hrest : EndsAlike rest rest') : Stands afterOperand l rest' := by
  cases h with
  | mark hm => exact .mark hm
  | attributes => exact .attributes
  | slashes => exact .slashes
  | slash h => exact .slash (hrest.slash h)
  | times hao => exact .times hao
  | star hao => exact .star hao
  | minus hnumber => exact .minus fun hao => hrest.number (hnumber hao)
  | integer hsign hne hdigits h => exact .integer hsign hne hdigits (hrest.digitOrPoint h)
  | decimal hsign hne hwhole hfraction h =>
    exact .decimal hsign hne hwhole hfraction (hrest.digit h)
  | parent => exact .parent
  | self h => exact .self (hrest.digitOrPoint h)
  | colon h => exact .colon (hrest.colon h)
  | unequal => exact .unequal
  | atMost => exact .atMost
  | less h => exact .less (hrest.equals h)
  | atLeast => exact .atLeast
  | greater h => exact .greater (hrest.equals h)
  | literal hq hcontent => exact .literal hq hcontent
  | reference hname h hcolon => exact .reference hname (hrest.name h) (hrest.qualified hcolon)
  | qualifiedReference hqualifier hname h =>
    exact .qualifiedReference hqualifier hname (hrest.name h)
  | axis hblanks => exact .axis hblanks
  | word hao hop h hmark =>
    exact .word hao hop (hrest.name h) fun hm => hmark (hrest.axisMark hm)
  | nodeType hname hblanks hinner => exact .nodeType hname hblanks hinner
  | name hname h hmark hop hempty =>
    exact .name hname (hrest.name h) (fun hm => hmark (hrest.axisMark hm)) hop
      fun hmem => hrest.parens (hempty hmem)

end Lexeme
end XPathSyntax
