import XPathSyntax.Operator
import XPathSyntax.Text.Quoted

/-! Tokens: a kind, the text that the kind carries, and the line on which the token starts. Each
binary operator is a kind of its own. Tokens may come from anywhere, so a text or a line can be
missing; reading a text gives every token its line, and a text to exactly those kinds that have
one. -/

namespace XPathSyntax

namespace Token

inductive Kind where
  | axis
  | colon
  | comma
  | decimal
  | integer
  | name
  | nodeType
  | openBracket
  | closeBracket
  | openParen
  | closeParen
  | slash
  | literal
  | reference
  | operator (op : Operator)
  | endOfInput
  deriving DecidableEq

namespace Kind

def describe : Kind → String
  | axis => "axis"
  | colon => "':'"
  | comma => "','"
  | decimal => "float"
  | integer => "integer"
  | name => "identifier"
  | nodeType => "type test"
  | openBracket => "'['"
  | closeBracket => "']'"
  | openParen => "'('"
  | closeParen => "')'"
  | slash => "'/'"
  | literal => "string"
  | reference => "variable"
  | operator op => "'" ++ op.spelling ++ "'"
  | endOfInput => "end of input"

/-- Whether an operand can end with a token of this kind. After such a token `*` multiplies and
`and`, `or`, `div`, `mod` are operators; elsewhere all five are names. -/
def endsOperand : Kind → Bool
  | closeParen | closeBracket | integer | decimal | literal | reference | name | nodeType => true
  | _ => false

def beginsStep : Kind → Bool
  | name | nodeType | axis => true
  | _ => false

end Kind
end Token

structure Token where
  kind : Token.Kind
  value : Option String := none
  line : Option Nat := none
  deriving DecidableEq

namespace Token

def endOfInput : Token := ⟨.endOfInput, none, none⟩

def text (t : Token) : String :=
  t.value.getD ""

def describe (t : Token) : String :=
  match t.value, t.kind with
  | some value, .literal => "string " ++ Text.quote value
  | some value, .reference => "'$" ++ value ++ "'"
  | some value, .axis => "axis '" ++ value ++ "'"
  | some value, _ => "'" ++ value ++ "'"
  | none, kind => kind.describe

end Token
end XPathSyntax
