import XPathSyntax.Count
import XPathSyntax.Parser
import XPathSyntax.Tree

/-! The grammar of expressions as parsers. Operands of `or`, `and`, equality, relational, additive
and union operators group to the left; `div`, `mod` and `*` take one left operand and a whole
product on their right. Every node is measured as it is built, and every expression and every right
side of a product is entered only while the limit of nesting allows it, so `entered` is the only
definition that recurs. -/

namespace XPathSyntax

structure Subtree where
  tree : Tree
  height : Nat

namespace Parser

def operatorAt (level : Level) : Token.Kind → Option Operator
  | .operator op => if op.level = level then some op else none
  | _ => none

def leaf (build : String → Tree) : Parser Subtree := do
  return ⟨build (← advance).text, 1⟩

def nameTest (first : String) : Parser Tree := do
  if ← eat .colon then
    return .nameTest (some first) (← expect .name).text
  else
    return .nameTest none first

def nodeTest : Parser Tree := do
  let found ← look
  match found.kind with
  | .name => nameTest (← advance).text
  | .nodeType => return .nodeType (← advance).text
  | _ => reject (.expected .nodeTest found)

variable (limits : Limits)

/-- Puts a node above trees of which the highest has the height `below`. -/
def grow (tree : Tree) (below : Nat) : Parser Subtree :=
  if limits.height < Count.add below 1 then tooDeep limits.height
  else pure ⟨tree, Count.add below 1⟩

def growOver (build : List Tree → Tree) (parts : List Subtree) : Parser Subtree :=
  grow limits (build (parts.map (·.tree))) ((parts.map (·.height)).foldr max 0)

def join (op : Operator) (left right : Subtree) : Parser Subtree :=
  grow limits (.binary op left.tree right.tree) (max left.height right.height)

def chainFrom (level : Level) (operand : Parser Subtree) (first : Subtree) : Parser Subtree :=
  whileNext (operatorAt level) (fun op left => do join limits op left (← operand)) first

/-- Operands with operators of one level between them, grouped to the left. -/
def chain (level : Level) (operand : Parser Subtree) : Parser Subtree := do
  chainFrom limits level operand (← operand)

def arguments (expression : Parser Subtree) : Parser (List Subtree) := do
  if (← look).kind = .closeParen then return []
  else separatedBy .comma expression

def plainStep (expression : Parser Subtree) : Parser Subtree := do
  let found ← look
  match found.kind with
  | .name =>
    let name := (← advance).text
    if ← eat .openParen then
      let parts ← arguments expression
      let _ ← expect .closeParen
      growOver limits (.call name) parts
    else
      grow limits (.step .child (← nameTest name)) 1
  | .nodeType => grow limits (.step .child (.nodeType (← advance).text)) 1
  | .axis =>
    let name := (← advance).text
    match Axis.ofName? name with
    | none => reject (.unknownAxis name)
    | some axis => grow limits (.step axis (← nodeTest)) 1
  | _ => reject (.expected .step found)

/-- The predicates of a step, each around the step as the predicates before it have left it. -/
def predicates (expression : Parser Subtree) (step : Subtree) : Parser Subtree :=
  whileNext (fun kind => if kind = .openBracket then some () else none)
    (fun _ base => do
      let filter ← expression
      let _ ← expect .closeBracket
      grow limits (.predicate base.tree filter.tree) (max base.height filter.height))
    step

def step (expression : Parser Subtree) : Parser Subtree := do
  predicates limits expression (← plainStep limits expression)

def steps (expression : Parser Subtree) : Parser (List Subtree) :=
  separatedBy .slash (step limits expression)

/-- A step that stands alone is no path. -/
def pathOver : List Subtree → Parser Subtree
  | [only] => return only
  | parts => growOver limits .path parts

def relativePath (expression : Parser Subtree) : Parser Subtree := do
  pathOver limits (← steps limits expression)

/-- A slash alone is the root of the document. -/
def absolutePath (expression : Parser Subtree) : Parser Subtree := do
  let _ ← expect .slash
  if (← look).kind.beginsStep then
    growOver limits .absolutePath (← steps limits expression)
  else
    growOver limits .absolutePath []

/-- Parentheses group and leave no node. -/
def member (expression : Parser Subtree) : Parser Subtree := do
  let found ← look
  match found.kind with
  | .name | .nodeType | .axis => relativePath limits expression
  | .slash => absolutePath limits expression
  | .literal => leaf .literal
  | .integer => leaf .integer
  | .decimal => leaf .decimal
  | .reference => leaf .reference
  | .openParen =>
    let _ ← advance
    let inner ← expression
    let _ ← expect .closeParen
    return inner
  | _ => reject (.expected .expression found)

inductive Entry where
  | expression
  | product
  deriving DecidableEq

/-- Behind the left operand of a product, the operator and all that stands on its right.
`inside` parses what is entered one level further in. -/
def productFrom (inside : Entry → Parser Subtree) (left : Subtree) : Parser Subtree := do
  match operatorAt .multiplicative (← look).kind with
  | none => return left
  | some op =>
    let _ ← advance
    join limits op left (← inside .product)

def product (inside : Entry → Parser Subtree) : Parser Subtree := do
  productFrom limits inside (← chain limits .union (member limits (inside .expression)))

def looseLevels : List Level :=
  [.or, .and, .equality, .relational, .additive]

def ladder (inside : Entry → Parser Subtree) : Parser Subtree :=
  looseLevels.foldr (chain limits) (product limits inside)

/-- Enters the grammar while `open` more levels may be open. -/
def entered : Nat → Entry → Parser Subtree
  | 0, _ => tooDeep limits.nesting
  | inner + 1, .expression => ladder limits fun entry => entered inner entry
  | inner + 1, .product => product limits fun entry => entered inner entry

def expression : Parser Subtree :=
  entered limits limits.nesting .expression

def sentence : Parser Tree := do
  let whole ← expression limits
  let found ← look
  if found.kind = .endOfInput then return whole.tree else reject (.trailing found)

def root : Parser (Option Tree) := do
  let _ ← advance
  if (← look).kind = .endOfInput then return none else return some (← sentence limits)

end Parser
end XPathSyntax
