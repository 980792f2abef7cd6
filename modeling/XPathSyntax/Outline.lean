/-! Nested records as text, either in one line or with one member to a line. A record is a name
and its members in brackets; only the braced kind labels its members. -/

namespace XPathSyntax

inductive Bracket where
  | brace
  | paren
  | square

namespace Bracket

def left : Bracket → Char
  | brace => '\x7b'
  | paren => '('
  | square => '['

def right : Bracket → Char
  | brace => '\x7d'
  | paren => ')'
  | square => ']'

/-- Braces stand apart from the name before them. -/
def before : Bracket → List Char
  | brace => [' ']
  | paren | square => []

/-- In one line, braces stand apart from what they enclose. -/
def inside : Bracket → List Char
  | brace => [' ']
  | paren | square => []

end Bracket

inductive Outline where
  | atom (text : List Char)
  | labelled (label : String) (value : Outline)
  | record (name : String) (bracket : Bracket) (members : List Outline)

namespace Outline

mutual

def lineOnto : Outline → List Char → List Char
  | atom text, rest => text ++ rest
  | labelled label value, rest => label.toList ++ ':' :: ' ' :: lineOnto value rest
  | record name bracket members, rest =>
    name.toList ++ (bracket.before ++ bracket.left ::
      (bracket.inside ++ firstOnto members (bracket.inside ++ bracket.right :: rest)))

def firstOnto : List Outline → List Char → List Char
  | [], rest => rest
  | m :: ms, rest => lineOnto m (laterOnto ms rest)

def laterOnto : List Outline → List Char → List Char
  | [], rest => rest
  | m :: ms, rest => ',' :: ' ' :: lineOnto m (laterOnto ms rest)

end

def newLineOnto (depth : Nat) (rest : List Char) : List Char :=
  '\n' :: (List.replicate (4 * depth) ' ' ++ rest)

mutual

/-- The outline with every member on a line of its own, one step deeper than its record and
followed by a comma; a record without members stays closed. -/
def linesOnto (depth : Nat) : Outline → List Char → List Char
  | atom text, rest => text ++ rest
  | labelled label value, rest => label.toList ++ ':' :: ' ' :: linesOnto depth value rest
  | record name bracket [], rest =>
    name.toList ++ (bracket.before ++ bracket.left :: bracket.right :: rest)
  | record name bracket (m :: ms), rest =>
    name.toList ++ (bracket.before ++ bracket.left ::
      newLineOnto (depth + 1) (linesOnto (depth + 1) m (',' ::
        membersOnto (depth + 1) ms (newLineOnto depth (bracket.right :: rest)))))

def membersOnto (depth : Nat) : List Outline → List Char → List Char
  | [], rest => rest
  | m :: ms, rest => newLineOnto depth (linesOnto depth m (',' :: membersOnto depth ms rest))

end

def line (o : Outline) : String :=
  String.ofList (o.lineOnto [])

def lines (o : Outline) : String :=
  String.ofList (o.linesOnto 0 [])

end Outline
end XPathSyntax
