import XPathSyntax.Outline
import XPathSyntax.Text.Quoted
import XPathSyntax.Tree

/-! The record form of a tree: one named record to a node, every text quoted. -/

namespace XPathSyntax

def Operator.label : Operator → String
  | or => "Or"
  | and => "And"
  | equal => "Eq"
  | unequal => "Neq"
  | less => "Lt"
  | greater => "Gt"
  | atMost => "Lte"
  | atLeast => "Gte"
  | plus => "Add"
  | minus => "Sub"
  | div => "Div"
  | mod => "Mod"
  | times => "Mul"
  | union => "Pipe"

def Axis.label : Axis → String
  | child => "Child"
  | descendant => "Descendant"
  | parent => "Parent"
  | ancestor => "Ancestor"
  | followingSibling => "FollowingSibling"
  | precedingSibling => "PrecedingSibling"
  | following => "Following"
  | preceding => "Preceding"
  | attributes => "Attribute"
  | namespaces => "Namespace"
  | self => "Self_"
  | descendantOrSelf => "DescendantOrSelf"
  | ancestorOrSelf => "AncestorOrSelf"

namespace Outline

def word (s : String) : Outline := .atom s.toList

def quoted (s : String) : Outline := .atom (Text.quoteOnto s.toList [])

/-- A record with one member, which needs no label. -/
def wrap (name : String) (value : Outline) : Outline := .record name .paren [value]

def list (items : List Outline) : Outline := .record "" .square items

def maybe : Option String → Outline
  | none => word "None"
  | some s => wrap "Some" (quoted s)

end Outline

namespace Tree

open Outline

mutual

def outline : Tree → Outline
  | binary op left right =>
    .record "Binary" .brace
      [.labelled "op" (word op.label), .labelled "left" (outline left),
        .labelled "right" (outline right)]
  | path steps => wrap "Path" (list (outlines steps))
  | absolutePath steps => wrap "AbsolutePath" (list (outlines steps))
  | step axis test =>
    .record "Axis" .brace [.labelled "axis" (word axis.label), .labelled "value" (outline test)]
  | predicate base filter =>
    .record "Predicate" .brace
      [.labelled "step" (outline base), .labelled "filter" (outline filter)]
  | nameTest qualifier name =>
    .record "Test" .brace [.labelled "prefix" (maybe qualifier), .labelled "name" (quoted name)]
  | nodeType name => wrap "TypeTest" (quoted name)
  | call name arguments =>
    .record "Call" .brace
      [.labelled "name" (quoted name), .labelled "args" (list (outlines arguments))]
  | literal text => wrap "String" (quoted text)
  | integer text => wrap "Int" (quoted text)
  | decimal text => wrap "Float" (quoted text)
  | reference name => wrap "Var" (quoted name)

def outlines : List Tree → List Outline
  | [] => []
  | t :: ts => outline t :: outlines ts

end

end Tree
end XPathSyntax
