import XPathSyntax.Proofs.Grammar.Forms
import XPathSyntax.Proofs.Parser.Budget

/-! The parser recurs within bounds that the limit of nesting sets. From one level of nesting to the
next lead at most twenty productions, each with a smaller `reach` than the one before, and a loop
over tokens stays where it is. So a budget in proportion to the limit lasts for every source. -/

namespace XPathSyntax

namespace Parser

variable {α β : Type}

theorem run_liftM (p : Parser α) (c : Cursor) :
    (liftM p : Budgeted α).run.run c =
      match p.run c with
      | .done a c' => .done (some a) c'
      | .failed error c' => .failed error c' := rfl

/-- A loop whose rounds keep within the budget keeps within it. -/
theorem liftM_whileNext (begins : Token.Kind → Option β) (round : β → α → Parser α) (a : α)
    (hb : begins .endOfInput = none) :
    liftM (whileNext begins round a hb) =
      budgetedWhile begins (fun b a => liftM (round b a)) a hb := by
  apply ext
  intro c
  symm
  change budgetedRounds begins _ hb a c =
    match rounds begins round hb a c with
    | .done a c' => Outcome.done (some a) c'
    | .failed error c' => .failed error c'
  fun_induction rounds begins round hb a c with
  | case1 a c hk =>
    rw [budgetedRounds]
    grind
  | case2 a c b hk error c' ha =>
    rw [budgetedRounds]
    grind
  | case3 a c b hk token c' ha error c'' hr =>
    have hlift := run_liftM (round b a) c'
    rw [hr] at hlift
    rw [budgetedRounds]
    grind
  | case4 a c b hk token c' ha a' c'' hr ih =>
    have hlift := run_liftM (round b a) c'
    rw [hr] at hlift
    rw [budgetedRounds]
    grind

theorem liftM_ite (p : Prop) [Decidable p] (x y : Parser α) :
    (liftM (if p then x else y) : Budgeted α) = if p then liftM x else liftM y :=
  apply_ite _ p x y

namespace Production

/-- How many productions are entered one inside the other, this one included, before the next
expression or product is. -/
def reach : Production α → Nat
  | expression => 2
  | nested _ => 1
  | level .or => 20
  | level .and => 18
  | level .equality => 16
  | level .relational => 14
  | level .additive => 12
  | level .multiplicative => 10
  | level .union => 9
  | grouped .or => 19
  | grouped .and => 17
  | grouped .equality => 15
  | grouped .relational => 13
  | grouped .additive => 11
  | grouped .multiplicative => 10
  | grouped .union => 8
  | member => 7
  | relativePath | absolutePath => 6
  | followingSteps _ => 5
  | step => 4
  | axisValue => 2
  | nameTest _ => 1
  | arguments | predicates _ => 3

theorem reach_pos (production : Production α) : 0 < production.reach := by
  cases production with
  | level l | grouped l => cases l <;> decide
  | _ => exact Nat.succ_pos _

theorem slash_ne_endOfInput : Token.Kind.slash ≠ .endOfInput := by decide

variable (limits : Limits) (inside : Entry → Parser Subtree)

def parser : Production α → Parser α
  | expression => inside .expression
  | nested entry => inside entry
  | level l => ofForm limits inside (.level l)
  | grouped l => chain limits l (ofForm limits inside (Grammar.operand l))
  | member => Parser.member limits (inside .expression)
  | relativePath => Parser.relativePath limits (inside .expression)
  | absolutePath => Parser.absolutePath limits (inside .expression)
  | followingSteps found => do
    let item := Parser.step limits (inside .expression)
    return (← separatedFrom .slash item slash_ne_endOfInput found).reverse
  | step => Parser.step limits (inside .expression)
  | axisValue => nodeTest
  | nameTest first => Parser.nameTest first
  | arguments => Parser.arguments (inside .expression)
  | predicates whole => Parser.predicates limits (inside .expression) whole

variable {limits inside} {depth : Nat} {call : ⦃γ : Type⦄ → Production γ → Budgeted γ}
  {deeper : Entry → Budgeted Subtree}

theorem reach_operand (l : Level) : (operand l).reach < (grouped l).reach := by
  cases l <;> decide

theorem parser_operand (l : Level) :
    (operand l).parser limits inside = ofForm limits inside (Grammar.operand l) := by
  cases l <;> rfl

theorem reach_grouped {l : Level} (hl : l ≠ .multiplicative) :
    (grouped l).reach < (level l).reach := by
  cases l <;> first | decide | exact absurd rfl hl

theorem body_level {l : Level} (hl : l ≠ .multiplicative) :
    (level l).body limits depth call deeper = call (grouped l) := by
  cases l <;> first | rfl | exact absurd rfl hl

/-- What `call` has to do for a production: to parse, for all that are reached from it. -/
def Serves (limits : Limits) (inside : Entry → Parser Subtree)
    (call : ⦃γ : Type⦄ → Production γ → Budgeted γ) (production : Production α) : Prop :=
  ∀ ⦃γ : Type⦄ (called : Production γ), called.reach < production.reach →
    call called = liftM (called.parser limits inside)

theorem body_multiplicative (hcall : Serves limits inside call (level .multiplicative)) :
    (level .multiplicative).body limits depth call deeper = liftM (product limits inside) := by
  rw [body, hcall (level .union) (by decide), hcall (nested .product) (by decide), product,
    liftM_bind]
  refine bind_congr fun left => ?_
  rw [productFrom, liftM_bind]
  refine bind_congr fun found => ?_
  cases operatorAt .multiplicative found.kind with
  | none => rfl
  | some op =>
    simp only [liftM_bind]
    rfl

theorem body_member (hcall : Serves limits inside call member) :
    member.body limits depth call deeper =
      liftM (Parser.member limits (inside .expression)) := by
  rw [body, Parser.member, liftM_bind]
  refine bind_congr fun found => ?_
  cases found.kind with
  | name | nodeType | axis => exact hcall relativePath (by decide)
  | slash => exact hcall absolutePath (by decide)
  | openParen =>
    dsimp only
    rw [hcall expression (by decide)]
    simp only [liftM_bind, liftM_pure]
    rfl
  | _ => rfl

theorem body_step (hcall : Serves limits inside call step) :
    step.body limits depth call deeper = liftM (Parser.step limits (inside .expression)) := by
  have harguments := hcall arguments (by decide)
  have hvalue := hcall axisValue (by decide)
  have htest (first : String) := hcall (nameTest first) (show 1 < 4 by decide)
  have hpredicates (whole : Subtree) := hcall (predicates whole) (show 3 < 4 by decide)
  rw [body, Parser.step, plainStep, bind_assoc, liftM_bind]
  refine bind_congr fun found => ?_
  cases found.kind with
  | name =>
    simp only [harguments, htest, hpredicates, parser, liftM_bind, liftM_ite, bind_assoc]
    refine bind_congr fun name => bind_congr fun called => ?_
    split <;> simp only [bind_assoc]
  | nodeType => simp only [hpredicates, parser, liftM_bind, bind_assoc]
  | axis =>
    simp only [hvalue, hpredicates, parser, liftM_bind, bind_assoc]
    refine bind_congr fun name => ?_
    cases Axis.ofName? name.text with
    | none => rfl
    | some axis => simp only [liftM_bind, bind_assoc]
  | _ => rfl

theorem body_axisValue (hcall : Serves limits inside call axisValue) :
    axisValue.body limits depth call deeper = liftM nodeTest := by
  have htest (first : String) := hcall (nameTest first) (show 1 < 2 by decide)
  rw [body, nodeTest, liftM_bind]
  refine bind_congr fun found => ?_
  cases found.kind with
  | name => simp only [htest, parser, liftM_bind]
  | nodeType => simp only [liftM_bind, liftM_pure]
  | _ => rfl

/-- A production parses if those that it reaches do, and if the next level does where one may be
opened. -/
theorem body_eq (production : Production α) (hcall : Serves limits inside call production)
    (hdeeper : ∀ entry, (if limits.nesting ≤ depth then liftM (tooDeep limits.nesting)
      else deeper entry) = (liftM (inside entry) : Budgeted Subtree)) :
    production.body limits depth call deeper = liftM (production.parser limits inside) := by
  cases production with
  | expression => exact hcall (nested .expression) (by decide)
  | nested entry => exact hdeeper entry
  | level l =>
    by_cases hl : l = .multiplicative
    · subst hl
      exact body_multiplicative hcall
    · rw [body_level hl, hcall (grouped l) (reach_grouped hl), parser, parser, ofForm_level _ _ hl]
  | grouped l =>
    rw [body, hcall (operand l) (reach_operand l), parser_operand, parser, chain, liftM_bind]
    refine bind_congr fun first => ?_
    refine Eq.trans ?_ (liftM_whileNext _ _ first rfl).symm
    simp only [liftM_bind]
  | member => exact body_member hcall
  | relativePath =>
    have hsteps (first : Subtree) := hcall (followingSteps [first]) (show 5 < 6 by decide)
    simp only [body, hcall step (show 4 < 6 by decide), hsteps, parser, Parser.relativePath, steps,
      separatedBy, liftM_bind, liftM_pure, bind_assoc, pure_bind]
  | absolutePath =>
    have hsteps (first : Subtree) := hcall (followingSteps [first]) (show 5 < 6 by decide)
    simp only [body, hcall step (show 4 < 6 by decide), hsteps, parser, Parser.absolutePath, steps,
      separatedBy, liftM_bind, liftM_pure, liftM_ite, bind_assoc, pure_bind]
  | followingSteps found =>
    simp only [body, hcall step (show 4 < 5 by decide), parser, separatedFrom, liftM_bind,
      liftM_pure, liftM_whileNext]
  | step => exact body_step hcall
  | axisValue => exact body_axisValue hcall
  | nameTest first =>
    simp only [body, parser, Parser.nameTest, liftM_bind, liftM_pure, liftM_ite]
  | arguments =>
    simp only [body, hcall expression (show 2 < 3 by decide), parser, Parser.arguments,
      separatedBy, separatedFrom, liftM_bind, liftM_pure, liftM_ite, liftM_whileNext]
  | predicates whole =>
    rw [body, hcall expression (show 2 < 3 by decide)]
    refine Eq.trans ?_ (liftM_whileNext _ _ whole rfl).symm
    simp only [liftM_bind]
    rfl

theorem reach_ofEntry_le (entry : Entry) : (ofEntry entry).reach ≤ 20 := by
  cases entry <;> decide

theorem entered_succ (left : Nat) (entry : Entry) :
    entered limits (left + 1) entry =
      (ofEntry entry).parser limits fun entry => entered limits left entry := by
  cases entry <;> rfl

/-- A production does not run out if it can reach the next level of nesting, and from each level
that may still be opened the one behind it. -/
theorem run_eq {calls openings depth left : Nat} (production : Production α)
    (hdepth : depth + left = limits.nesting) (hopenings : left ≤ openings)
    (hcalls : production.reach + 20 * left ≤ calls) :
    run limits calls openings depth production =
      liftM (production.parser limits fun entry => entered limits left entry) := by
  have hpos := production.reach_pos
  induction calls generalizing α openings depth left with
  | zero => omega
  | succ calls ih =>
    refine body_eq production ?_ ?_
    · intro γ called hcalled
      exact ih called hdepth hopenings (by omega) called.reach_pos
    intro entry
    cases left with
    | zero =>
      rw [if_pos (by omega)]
      rfl
    | succ left =>
      have hentry := reach_ofEntry_le entry
      have hinner : depth + 1 + left = limits.nesting := by omega
      rw [if_neg (by omega)]
      cases openings with
      | zero => omega
      | succ openings =>
        dsimp only
        rw [ih (ofEntry entry) hinner (by omega) (by omega) (ofEntry entry).reach_pos, entered_succ]

end Production

theorem budgetedRoot_eq (limits : Limits) {calls openings : Nat}
    (hopenings : limits.nesting ≤ openings) (hcalls : 3 + 20 * limits.nesting ≤ calls) :
    budgetedRoot limits calls openings = liftM (root limits) := by
  cases calls with
  | zero => omega
  | succ calls =>
    have hreach : (Production.reach .expression) + 20 * limits.nesting ≤ calls := by
      rw [Production.reach]
      omega
    rw [budgetedRoot, Production.run_eq .expression (Nat.zero_add _) hopenings hreach]
    simp only [Production.parser, root, sentence, expression, liftM_bind, liftM_pure, liftM_ite,
      bind_assoc]
    refine bind_congr fun _ => bind_congr fun first => ?_
    split
    · rfl
    · refine bind_congr fun whole => bind_congr fun behind => ?_
      split <;> rfl

end Parser

/-- The parser never runs out of a budget that depends on the limit of nesting alone: at most so
many levels are open at once, and of the functions that parse at most 24 more are active for each
of them. -/
theorem parses_within_nesting (limits : Limits) (source : Source) :
    parseWithin (24 * (limits.nesting + 1)) limits.nesting limits source =
      some (parseSource limits source) := by
  have hcalls : 3 + 20 * limits.nesting ≤ 24 * (limits.nesting + 1) := by omega
  rw [parseWithin, Parser.budgetedRoot_eq limits (Nat.le_refl _) hcalls, Parser.run_liftM,
    parseSource]
  cases (Parser.root limits).run ⟨.endOfInput, Feed.ofSource source⟩ <;> rfl

/-- Two levels are open where one was allowed for. -/
example : (parseWithin 100 1 {} (Source.ofText "(1)")).isNone := by decide +kernel

/-- Seventeen functions are active where a number is read. -/
example : (parseWithin 16 1 {} (Source.ofText "1")).isNone ∧
    (parseWithin 17 1 {} (Source.ofText "1")).isSome := by decide +kernel

end XPathSyntax
