import XPathSyntax.Lexeme
import XPathSyntax.Tree

/-! The trees that texts denote. A path has steps and only steps below it, a step tests names or
node types, and every text is one that a lexeme can carry. -/

namespace XPathSyntax

namespace Text

def isName (s : List Char) : Bool :=
  match s with
  | [] => false
  | c :: rest => Lexeme.beginsName c && rest.all Lexeme.continuesName

def isNameOrStar (s : String) : Bool :=
  isName s.toList || s == "*"

def isReference (s : List Char) : Bool :=
  match s.dropWhile (· != ':') with
  | [] => isName s
  | _ :: rest => isName (s.takeWhile (· != ':')) && isName rest

def withoutSign : List Char → List Char
  | '-' :: rest => rest
  | s => s

def isInteger (s : List Char) : Bool :=
  let digits := withoutSign s
  !digits.isEmpty && digits.all Char.isDigit

/-- Digits, a point and digits, where one of the two runs may be empty. -/
def isDecimal (s : List Char) : Bool :=
  let digits := withoutSign s
  let whole := digits.takeWhile Char.isDigit
  match digits.dropWhile Char.isDigit with
  | '.' :: fraction => fraction.all Char.isDigit && !(whole.isEmpty && fraction.isEmpty)
  | _ => false

/-- A literal is written without escapes, so one of the two quotes must not occur in it. -/
def isLiteral (s : List Char) : Bool :=
  !s.contains '\x22' || !s.contains '\''

end Text

namespace Tree

inductive Role where
  | expression
  | step
  deriving DecidableEq

def isNodeTest : Tree → Bool
  | nameTest qualifier name => qualifier.all Text.isNameOrStar && Text.isNameOrStar name
  | nodeType name => Lexeme.nodeTypes.contains name
  | _ => false

mutual

/-- Whether the tree can play its part. Every step is an expression too. -/
def wellFormed : Role → Tree → Bool
  | role, binary _ left right =>
    role = .expression && wellFormed .expression left && wellFormed .expression right
  | role, path steps => role = .expression && 2 ≤ steps.length && allWellFormed .step steps
  | role, absolutePath steps => role = .expression && allWellFormed .step steps
  | _, step _ test => test.isNodeTest
  | _, predicate base filter => wellFormed .step base && wellFormed .expression filter
  | _, call name arguments =>
    Text.isNameOrStar name && allWellFormed .expression arguments &&
      !(arguments.isEmpty && Lexeme.nodeTypes.contains name)
  | role, literal text => role = .expression && Text.isLiteral text.toList
  | role, integer text => role = .expression && Text.isInteger text.toList
  | role, decimal text => role = .expression && Text.isDecimal text.toList
  | role, reference name => role = .expression && Text.isReference name.toList
  | _, nameTest _ _ | _, nodeType _ => false

def allWellFormed : Role → List Tree → Bool
  | _, [] => true
  | role, t :: ts => wellFormed role t && allWellFormed role ts

end

theorem allWellFormed_iff (role : Role) (ts : List Tree) :
    allWellFormed role ts = true ↔ ∀ t ∈ ts, wellFormed role t = true := by
  induction ts with
  | nil => simp [allWellFormed]
  | cons t ts ih => simp [allWellFormed, ih]

theorem wellFormed_expression {t : Tree} (h : t.wellFormed .step = true) :
    t.wellFormed .expression = true := by
  cases t <;> simp_all [wellFormed]

/-- A property of well-formed trees is shown for every way in which they are made. -/
theorem wellFormed_induction (P : Role → Tree → Prop)
    (lone : ∀ t, P .step t → P .expression t)
    (binary : ∀ op left right, P .expression left → P .expression right →
      P .expression (.binary op left right))
    (path : ∀ steps : List Tree, 2 ≤ steps.length → (∀ t ∈ steps, P .step t) →
      P .expression (.path steps))
    (absolutePath : ∀ steps : List Tree, (∀ t ∈ steps, P .step t) →
      P .expression (.absolutePath steps))
    (step : ∀ axis test, isNodeTest test = true → P .step (.step axis test))
    (predicate : ∀ base filter, P .step base → P .expression filter →
      P .step (.predicate base filter))
    (call : ∀ name arguments, Text.isNameOrStar name = true →
      (arguments = [] → name ∉ Lexeme.nodeTypes) → (∀ t ∈ arguments, P .expression t) →
      P .step (.call name arguments))
    (literal : ∀ text : String, Text.isLiteral text.toList = true → P .expression (.literal text))
    (integer : ∀ text : String, Text.isInteger text.toList = true → P .expression (.integer text))
    (decimal : ∀ text : String, Text.isDecimal text.toList = true → P .expression (.decimal text))
    (reference : ∀ name : String, Text.isReference name.toList = true →
      P .expression (.reference name))
    {role : Role} {t : Tree} (h : t.wellFormed role = true) : P role t := by
  induction t using induction_on generalizing role with
  | h t ih =>
    have asStep (h : t.wellFormed .step = true) : P .step t := by
      cases t with
      | step axis test => exact step axis test h
      | predicate base filter =>
        simp only [wellFormed, Bool.and_eq_true] at h
        exact predicate base filter (ih base (by simp [children]) h.1)
          (ih filter (by simp [children]) h.2)
      | call name arguments =>
        simp only [wellFormed, Bool.and_eq_true, allWellFormed_iff] at h
        refine call name arguments h.1.1 ?_ fun u hu => ih u hu (h.1.2 u hu)
        rintro rfl
        simpa using h.2
      | _ => simp [wellFormed] at h
    cases role with
    | step => exact asStep h
    | expression =>
      cases t with
      | binary op left right =>
        simp only [wellFormed, Bool.and_eq_true] at h
        exact binary op left right (ih left (by simp [children]) h.1.2)
          (ih right (by simp [children]) h.2)
      | path steps =>
        simp only [wellFormed, Bool.and_eq_true, decide_eq_true_eq, allWellFormed_iff] at h
        exact path steps h.1.2 fun u hu => ih u hu (h.2 u hu)
      | absolutePath steps =>
        simp only [wellFormed, Bool.and_eq_true, allWellFormed_iff] at h
        exact absolutePath steps fun u hu => ih u hu (h.2 u hu)
      | step | predicate | call => exact lone _ (asStep h)
      | literal text => exact literal text (by simpa [wellFormed] using h)
      | integer text => exact integer text (by simpa [wellFormed] using h)
      | decimal text => exact decimal text (by simpa [wellFormed] using h)
      | reference name => exact reference name (by simpa [wellFormed] using h)
      | nameTest | nodeType => cases h

end Tree
end XPathSyntax
