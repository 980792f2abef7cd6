import XPathSyntax.Parser.Expression
import XPathSyntax.Source.OfText

/-! From a source of tokens, or from a text, to the tree of its expression. A source without tokens
has no tree; anything else than one whole expression is an error. -/

namespace XPathSyntax

def parseSource (limits : Limits) (source : Source) : Except Error (Option Tree) :=
  match (Parser.root limits).run ⟨.endOfInput, Feed.ofSource source⟩ with
  | .done tree _ => .ok tree
  | .failed error _ => .error error

def parse (limits : Limits) (text : String) : Except Error (Option Tree) :=
  parseSource limits (Source.ofText text)

end XPathSyntax
