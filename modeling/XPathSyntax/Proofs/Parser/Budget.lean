import XPathSyntax.Parse

/-! The parser with a budget. Every production that is entered takes one from what is left, and
gives it back when it is done; so does every level of nesting that is opened. A loop over tokens
takes nothing: it stays in its production. Where nothing is left the parser has no answer at all,
neither a tree nor an error. -/

namespace XPathSyntax.Parser

variable {α β : Type}

abbrev Budgeted (α : Type) : Type :=
  OptionT Parser α

/-- As `rounds`, but nothing follows a round that has run out of its budget. -/
def budgetedRounds (begins : Token.Kind → Option β) (round : β → α → Budgeted α)
    (hb : begins .endOfInput = none) (a : α) (c : Cursor) : Outcome (Option α) :=
  match _hk : begins c.lookahead.kind with
  | none => .done (some a) c
  | some b =>
    match _ha : advance.run c with
    | .failed error c' => .failed error c'
    | .done _ c' =>
      match _hr : (round b a).run.run c' with
      | .failed error c'' => .failed error c''
      | .done none c'' => .done none c''
      | .done (some a') c'' => budgetedRounds begins round hb a' c''
termination_by c.remaining
decreasing_by
  refine Nat.lt_of_le_of_lt (remaining_le_of_done _hr) (remaining_lt_of_advance ?_ _ha)
  intro h
  rw [h, hb] at _hk
  cases _hk

theorem budgetedRounds_remaining_le (begins : Token.Kind → Option β) (round : β → α → Budgeted α)
    (hb : begins .endOfInput = none) (a : α) (c : Cursor) :
    (budgetedRounds begins round hb a c).cursor.remaining ≤ c.remaining := by
  fun_induction budgetedRounds begins round hb a c with
  | case1 => exact Nat.le_refl _
  | case2 a c b hk error c' ha =>
    have := advance.remaining_le c
    rwa [ha] at this
  | case3 a c b hk token c' ha error c'' hr =>
    have := (round b a).run.remaining_le c'
    rw [hr] at this
    exact Nat.le_trans this (remaining_le_of_done ha)
  | case4 a c b hk token c' ha c'' hr =>
    exact Nat.le_trans (remaining_le_of_done hr) (remaining_le_of_done ha)
  | case5 a c b hk token c' ha a' c'' hr ih =>
    exact Nat.le_trans ih (Nat.le_trans (remaining_le_of_done hr) (remaining_le_of_done ha))

def budgetedWhile (begins : Token.Kind → Option β) (round : β → α → Budgeted α) (a : α)
    (hb : begins .endOfInput = none := by rfl) : Budgeted α :=
  .mk ⟨budgetedRounds begins round hb a, budgetedRounds_remaining_le begins round hb a⟩

/-- No operand and no predicate follows at the end of input. -/
theorem operatorAt_endOfInput (l : Level) : operatorAt l .endOfInput = none := rfl

theorem openBracketAt_endOfInput :
    (if Token.Kind.endOfInput = .openBracket then some () else none) = none := rfl

inductive Production : Type → Type where
  | expression : Production Subtree
  /-- The check that precedes every further level of nesting. -/
  | nested (entry : Entry) : Production Subtree
  | level (l : Level) : Production Subtree
  /-- Operands of a level and the operators between them, grouped to the left. -/
  | grouped (l : Level) : Production Subtree
  | member : Production Subtree
  | relativePath : Production Subtree
  | absolutePath : Production Subtree
  /-- The steps behind those found so far, which stand in reverse order. -/
  | followingSteps (found : List Subtree) : Production (List Subtree)
  | step : Production Subtree
  | axisValue : Production Tree
  | nameTest (first : String) : Production Tree
  | arguments : Production (List Subtree)
  | predicates (whole : Subtree) : Production Subtree

namespace Production

def operand : Level → Production Subtree
  | .or => level .and
  | .and => level .equality
  | .equality => level .relational
  | .relational => level .additive
  | .additive => level .multiplicative
  | .multiplicative => level .union
  | .union => member

def ofEntry : Entry → Production Subtree
  | .expression => level .or
  | .product => level .multiplicative

variable (limits : Limits)

/-- What a production does with `depth` levels of nesting open. It reaches the others by `call`,
and opens the next level by `deeper`. -/
def body (depth : Nat) (call : ⦃γ : Type⦄ → Production γ → Budgeted γ)
    (deeper : Entry → Budgeted Subtree) : Production α → Budgeted α
  | expression => call (nested .expression)
  | nested entry => if limits.nesting ≤ depth then tooDeep limits.nesting else deeper entry
  | level .multiplicative => do
    let left ← call (level .union)
    match operatorAt .multiplicative (← look).kind with
    | none => return left
    | some op =>
      let _ ← advance
      join limits op left (← call (nested .product))
  | level l => call (grouped l)
  | grouped l => do
    let first ← call (operand l)
    budgetedWhile (operatorAt l) (fun op left => do join limits op left (← call (operand l))) first
      (operatorAt_endOfInput l)
  | member => do
    let found ← look
    match found.kind with
    | .name | .nodeType | .axis => call relativePath
    | .slash => call absolutePath
    | .literal => leaf .literal
    | .integer => leaf .integer
    | .decimal => leaf .decimal
    | .reference => leaf .reference
    | .openParen =>
      let _ ← advance
      let inner ← call expression
      let _ ← expect .closeParen
      return inner
    | _ => reject (.expected .expression found)
  | relativePath => do
    let first ← call step
    pathOver limits (← call (followingSteps [first]))
  | absolutePath => do
    let _ ← expect .slash
    if (← look).kind.beginsStep then
      let first ← call step
      growOver limits .absolutePath (← call (followingSteps [first]))
    else
      growOver limits .absolutePath []
  | followingSteps found => do
    let steps ← budgetedWhile (fun kind => if kind = .slash then some () else none)
      (fun _ found => return (← call step) :: found) found
    return steps.reverse
  | step => do
    let found ← look
    match found.kind with
    | .name =>
      let name := (← advance).text
      if ← eat .openParen then
        let parts ← call arguments
        let _ ← expect .closeParen
        call (predicates (← growOver limits (.call name) parts))
      else
        let test ← call (nameTest name)
        call (predicates (← grow limits (.step .child test) 1))
    | .nodeType =>
      let test := Tree.nodeType (← advance).text
      call (predicates (← grow limits (.step .child test) 1))
    | .axis =>
      let name := (← advance).text
      match Axis.ofName? name with
      | none => reject (.unknownAxis name)
      | some axis =>
        let test ← call axisValue
        call (predicates (← grow limits (.step axis test) 1))
    | _ => reject (.expected .step found)
  | axisValue => do
    let found ← look
    match found.kind with
    | .name => call (nameTest (← advance).text)
    | .nodeType => return .nodeType (← advance).text
    | _ => reject (.expected .nodeTest found)
  | nameTest first => do
    if ← eat .colon then
      return .nameTest (some first) (← expect .name).text
    else
      return .nameTest none first
  | arguments => do
    if (← look).kind = .closeParen then return []
    else
      let first ← call expression
      let parts ← budgetedWhile (fun kind => if kind = .comma then some () else none)
        (fun _ found => return (← call expression) :: found) [first]
      return parts.reverse
  | predicates whole =>
    budgetedWhile (fun kind => if kind = .openBracket then some () else none)
      (fun _ base => do
        let filter ← call expression
        let _ ← expect .closeBracket
        grow limits (.predicate base.tree filter.tree) (max base.height filter.height))
      whole openBracketAt_endOfInput

/-- Runs a production while `calls` productions may be active and `openings` more levels of nesting
may be open. -/
def run : (calls openings depth : Nat) → {α : Type} → Production α → Budgeted α
  | 0, _, _, _, _ => failure
  | calls + 1, openings, depth, _, production =>
    production.body limits depth (fun _ called => run calls openings depth called) fun entry =>
      match openings with
      | 0 => failure
      | left + 1 => run calls left (depth + 1) (ofEntry entry)

end Production

variable (limits : Limits)

def budgetedRoot : (calls openings : Nat) → Budgeted (Option Tree)
  | 0, _ => failure
  | calls + 1, openings => do
    let _ ← advance
    if (← look).kind = .endOfInput then return none
    else
      let whole ← Production.run limits calls openings 0 .expression
      let found ← look
      if found.kind = .endOfInput then return some whole.tree else reject (.trailing found)

end Parser

/-- Parses a source within a budget; nothing, if that runs out. -/
def parseWithin (calls openings : Nat) (limits : Limits) (source : Source) :
    Option (Except Error (Option Tree)) :=
  match (Parser.budgetedRoot limits calls openings).run.run ⟨.endOfInput, Feed.ofSource source⟩ with
  | .done (some tree) _ => some (.ok tree)
  | .done none _ => none
  | .failed error _ => some (.error error)

end XPathSyntax
