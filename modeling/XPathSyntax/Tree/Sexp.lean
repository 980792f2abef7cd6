import XPathSyntax.Text.Quoted
import XPathSyntax.Tree

/-! The bracketed form of a tree: its tag and its parts, with a blank before each part. Names and
literals are quoted, numbers are not, and `nil` stands for a missing qualifier. A tree is written
in front of what follows it. -/

namespace XPathSyntax.Tree

def headOnto (tag : String) (rest : List Char) : List Char :=
  '(' :: (tag.toList ++ rest)

def qualifierOnto : Option String → List Char → List Char
  | none, rest => "nil".toList ++ rest
  | some qualifier, rest => Text.quoteOnto qualifier.toList rest

mutual

def sexpOnto : Tree → List Char → List Char
  | binary op left right, rest =>
    headOnto op.tag (' ' :: sexpOnto left (' ' :: sexpOnto right (')' :: rest)))
  | path steps, rest => headOnto "path" (sexpsOnto steps (')' :: rest))
  | absolutePath steps, rest => headOnto "absolute_path" (sexpsOnto steps (')' :: rest))
  | step axis test, rest =>
    headOnto "axis" (' ' :: (axis.name.toList ++ ' ' :: sexpOnto test (')' :: rest)))
  | predicate base filter, rest =>
    headOnto "predicate" (' ' :: sexpOnto base (' ' :: sexpOnto filter (')' :: rest)))
  | nameTest qualifier name, rest =>
    headOnto "test"
      (' ' :: qualifierOnto qualifier (' ' :: Text.quoteOnto name.toList (')' :: rest)))
  | nodeType name, rest => headOnto "type_test" (' ' :: Text.quoteOnto name.toList (')' :: rest))
  | call name arguments, rest =>
    headOnto "call" (' ' :: Text.quoteOnto name.toList (sexpsOnto arguments (')' :: rest)))
  | literal text, rest => headOnto "string" (' ' :: Text.quoteOnto text.toList (')' :: rest))
  | integer text, rest => headOnto "int" (' ' :: (text.toList ++ ')' :: rest))
  | decimal text, rest => headOnto "float" (' ' :: (text.toList ++ ')' :: rest))
  | reference name, rest => headOnto "var" (' ' :: Text.quoteOnto name.toList (')' :: rest))

def sexpsOnto : List Tree → List Char → List Char
  | [], rest => rest
  | t :: ts, rest => ' ' :: sexpOnto t (sexpsOnto ts rest)

end

def sexp (t : Tree) : String :=
  String.ofList (t.sexpOnto [])

theorem headOnto_append (tag : String) (rest more : List Char) :
    headOnto tag rest ++ more = headOnto tag (rest ++ more) := by
  simp only [headOnto, List.cons_append, List.append_assoc]

theorem qualifierOnto_append (qualifier : Option String) (rest more : List Char) :
    qualifierOnto qualifier rest ++ more = qualifierOnto qualifier (rest ++ more) := by
  cases qualifier with
  | none => simp only [qualifierOnto, List.append_assoc]
  | some qualifier => exact Text.quoteOnto_append ..

theorem sexpsOnto_append_of {ts : List Tree}
    (h : ∀ t ∈ ts, ∀ rest more, t.sexpOnto rest ++ more = t.sexpOnto (rest ++ more))
    (rest more : List Char) : sexpsOnto ts rest ++ more = sexpsOnto ts (rest ++ more) := by
  induction ts with
  | nil => rfl
  | cons t ts ih =>
    rw [sexpsOnto, sexpsOnto, List.cons_append, h t List.mem_cons_self,
      ih fun s hs => h s (List.mem_cons_of_mem _ hs)]

theorem sexpOnto_append (t : Tree) (rest more : List Char) :
    t.sexpOnto rest ++ more = t.sexpOnto (rest ++ more) := by
  induction t using induction_on generalizing rest more with
  | h t ih =>
    have list := sexpsOnto_append_of ih
    cases t
    all_goals
      simp only [children, List.mem_cons, List.not_mem_nil, or_false, forall_eq_or_imp,
        forall_eq] at ih list
      simp only [sexpOnto, headOnto_append, List.cons_append, List.append_assoc,
        Text.quoteOnto_append, qualifierOnto_append, ih, list]

/-- What is written for a tree does not depend on what follows it. -/
theorem sexpOnto_eq (t : Tree) (rest : List Char) : t.sexpOnto rest = t.sexp.toList ++ rest := by
  rw [sexp, String.toList_ofList, sexpOnto_append, List.nil_append]

end XPathSyntax.Tree
