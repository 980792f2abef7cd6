import XPathSyntax.Token

/-! Why an expression is refused. An error is a cause and a line; its wording is computed from the
cause alone. A source of tokens that is not a text can fail for reasons of its own, which it puts
into words itself. -/

namespace XPathSyntax

/-- Why a text does not divide into tokens. -/
inductive LexicalFault where
  | axisMarkWithoutName
  | bangWithoutEquals
  | unexpectedCharacter (found : Char)
  | unterminatedLiteral
  | dollarWithoutName
  | unknownAxis (name : String)
  | reported (message : String)
  deriving DecidableEq

def LexicalFault.message : LexicalFault → String
  | axisMarkWithoutName => "'::' must follow an axis name"
  | bangWithoutEquals => "expected '=' after '!'"
  | unexpectedCharacter c => "unexpected character '" ++ c.toString ++ "'"
  | unterminatedLiteral => "unterminated string literal"
  | dollarWithoutName => "expected name after '$'"
  | unknownAxis name => "unknown axis '" ++ name ++ "'"
  | reported message => message

inductive Expectation where
  | token (kind : Token.Kind)
  | expression
  | step
  | nodeTest
  deriving DecidableEq

def Expectation.describe : Expectation → String
  | token kind => kind.describe
  | expression => "an expression"
  | step => "a location step"
  | nodeTest => "a node test after axis"

/-- Why a sequence of tokens is not an expression. -/
inductive SyntaxFault where
  | expected (what : Expectation) (found : Token)
  | trailing (found : Token)
  | unknownAxis (name : String)
  | reported (message : String)
  deriving DecidableEq

def SyntaxFault.message : SyntaxFault → String
  | expected what found => "expected " ++ what.describe ++ ", found " ++ found.describe
  | trailing found => "unexpected " ++ found.describe ++ " after expression"
  | unknownAxis name => "unknown axis '" ++ name ++ "'"
  | reported message => message

inductive Error where
  | lexical (fault : LexicalFault) (line : Nat)
  | syntactic (fault : SyntaxFault) (line : Nat)
  /-- The expression nests deeper than `limit`, in its brackets or in its tree. -/
  | tooDeep (limit : Nat) (line : Nat)
  deriving DecidableEq

namespace Error

def line : Error → Nat
  | lexical _ line | syntactic _ line | tooDeep _ line => line

def message : Error → String
  | lexical fault line => "lex error on line " ++ toString line ++ ": " ++ fault.message
  | syntactic fault line => "syntax error on line " ++ toString line ++ ": " ++ fault.message
  | tooDeep limit line =>
    "expression nesting exceeds maximum depth of " ++ toString limit ++ " on line " ++ toString line

end Error
end XPathSyntax
