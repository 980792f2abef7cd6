import XPathSyntax.Token
import XPathSyntax.Tree

/-! The tokens that a tree was made of, with every axis written out and, as a rule, without the
parentheses that only group; and the same form of a token list. Lines play no part. -/

namespace XPathSyntax

namespace Token

def Kind.carriesText : Kind → Bool
  | .axis | .decimal | .integer | .name | .nodeType | .literal | .reference => true
  | _ => false

/-- A token without its line, and without the text that its kind does not have. -/
def plain (t : Token) : Token :=
  { kind := t.kind, value := if t.kind.carriesText then some t.text else none }

def ofKind (kind : Kind) : Token := { kind }

def carrying (kind : Kind) (text : String) : Token := { kind, value := some text }

end Token

namespace Tree

mutual

/-- The tokens of a tree, where those of an operand of an operator are written by `operand`. -/
def tokensWith (operand : List Token → List Token) : Tree → List Token
  | binary op left right =>
    operand (tokensWith operand left) ++
      .ofKind (.operator op) :: operand (tokensWith operand right)
  | path steps => tokensBetween operand .slash steps
  | absolutePath steps => .ofKind .slash :: tokensBetween operand .slash steps
  | step axis test => .carrying .axis axis.name :: tokensWith operand test
  | predicate base filter =>
    tokensWith operand base ++
      .ofKind .openBracket :: (tokensWith operand filter ++ [.ofKind .closeBracket])
  | nameTest none name => [.carrying .name name]
  | nameTest (some qualifier) name =>
    [.carrying .name qualifier, .ofKind .colon, .carrying .name name]
  | nodeType name => [.carrying .nodeType name]
  | call name arguments =>
    .carrying .name name :: .ofKind .openParen ::
      (tokensBetween operand .comma arguments ++ [.ofKind .closeParen])
  | literal text => [.carrying .literal text]
  | integer text => [.carrying .integer text]
  | decimal text => [.carrying .decimal text]
  | reference name => [.carrying .reference name]

def tokensBetween (operand : List Token → List Token) (mark : Token.Kind) :
    List Tree → List Token
  | [] => []
  | t :: ts => tokensWith operand t ++ tokensBehind operand mark ts

def tokensBehind (operand : List Token → List Token) (mark : Token.Kind) :
    List Tree → List Token
  | [] => []
  | t :: ts => .ofKind mark :: (tokensWith operand t ++ tokensBehind operand mark ts)

end

def tokens (t : Tree) : List Token :=
  t.tokensWith id

end Tree

namespace Token

def lacksAxis (previous : Option Kind) (token : Token) (next : Option Token) : Bool :=
  match token.kind with
  | .nodeType => previous != some .axis
  | .name =>
    previous != some .axis && previous != some .colon && next.map (·.kind) != some .openParen
  | _ => false

/-- The tokens with the axis `child` written out, and without grouping parentheses. `calls` tells
of each open parenthesis whether it belongs to a call. -/
def explicitFrom (previous : Option Kind) (calls : List Bool) : List Token → List Token
  | [] => []
  | t :: ts =>
    match t.kind, calls with
    | .openParen, _ =>
      let call := previous == some .name
      let rest := explicitFrom (some t.kind) (call :: calls) ts
      if call then t.plain :: rest else rest
    | .closeParen, false :: calls => explicitFrom (some t.kind) calls ts
    | .closeParen, calls => t.plain :: explicitFrom (some t.kind) calls.tail ts
    | _, _ =>
      let rest := t.plain :: explicitFrom (some t.kind) calls ts
      if lacksAxis previous t ts.head? then carrying .axis Axis.child.name :: rest else rest

def explicit (ts : List Token) : List Token :=
  explicitFrom none [] ts

end Token
end XPathSyntax
