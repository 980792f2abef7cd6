import XPathSyntax.Token

/-! Tokens spelled out, with one blank between them and nothing abbreviated. -/

namespace XPathSyntax.Token

/-- The mark around a literal: the double quote unless the literal holds one. -/
def quoteFor (s : List Char) : Char :=
  if s.contains '\x22' then '\'' else '\x22'

def spelling (t : Token) : List Char :=
  let text := t.text.toList
  match t.kind with
  | .axis => text ++ [':', ':']
  | .colon => [':']
  | .comma => [',']
  | .decimal | .integer | .name => text
  | .nodeType => text ++ ['(', ')']
  | .openBracket => ['[']
  | .closeBracket => [']']
  | .openParen => ['(']
  | .closeParen => [')']
  | .slash => ['/']
  | .literal => quoteFor text :: (text ++ [quoteFor text])
  | .reference => '$' :: text
  | .operator op => op.spelling.toList
  | .endOfInput => []

def spell : List Token → List Char
  | [] => []
  | [t] => t.spelling
  | t :: ts => t.spelling ++ ' ' :: spell ts

end XPathSyntax.Token
