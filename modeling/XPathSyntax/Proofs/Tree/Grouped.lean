import XPathSyntax.Proofs.Grammar.Forms
import XPathSyntax.Proofs.Grammar.Lookahead
import XPathSyntax.Proofs.Token.Legible

/-! Every well-formed tree can be written. With parentheses around the operands of operators and
with all axes written out, the tokens of a tree derive it whatever its operators are, and they are
legible; the nesting that they need is at most twice the height of the tree. -/

namespace XPathSyntax

open Grammar (Derives DerivesAll Form)
open Token (AllLegible EmptyParens)

namespace Tree

def inParens (ts : List Token) : List Token :=
  .ofKind .openParen :: (ts ++ [.ofKind .closeParen])

def grouped (t : Tree) : List Token :=
  t.tokensWith inParens

def Role.form : Role → Form
  | .expression => .expression
  | .step => .step

/-- A step needs no nesting of its own, nor does the node of its name test. -/
def Role.spare : Role → Nat
  | .expression => 0
  | .step => 2

def Writes (role : Role) (t : Tree) : Prop :=
  ∃ n, Derives role.form t.grouped t n ∧ n + role.spare ≤ 2 * t.height

theorem writesAll {role : Role} (mark : Token.Kind) {t : Tree} {ts : List Tree}
    (h : ∀ u ∈ t :: ts, Writes role u) :
    ∃ n, DerivesAll role.form mark (tokensBetween inParens mark (t :: ts)) (t :: ts) n ∧
      n + role.spare ≤ 2 * tallest (t :: ts) := by
  induction ts generalizing t with
  | nil =>
    obtain ⟨n, hd, hn⟩ := h t List.mem_cons_self
    refine ⟨n, ?_, ?_⟩
    · simpa [tokensBetween, tokensBehind, grouped] using DerivesAll.one hd
    · simpa [tallest] using hn
  | cons u ts ih =>
    obtain ⟨m, hd, hm⟩ := h t List.mem_cons_self
    obtain ⟨n, hds, hn⟩ := ih fun v hv => h v (List.mem_cons_of_mem _ hv)
    refine ⟨max m n, .more rfl hd hds, ?_⟩
    rw [tallest]
    omega

theorem Writes.expression_of_step {t : Tree} (h : Writes .step t) : Writes .expression t := by
  obtain ⟨n, hd, hn⟩ := h
  refine ⟨n + 1, (Derives.lone hd).expression_of_member, ?_⟩
  simp only [Role.spare] at hn ⊢
  omega

theorem Writes.of_member {t : Tree} {n : Nat} (h : Derives .member t.grouped t n)
    (hn : n + 1 ≤ 2 * t.height) : Writes .expression t :=
  ⟨n + 1, h.expression_of_member, hn⟩

theorem derives_inParens {ts : List Token} {t : Tree} {n : Nat} (h : Derives .expression ts t n) :
    Derives .member (inParens ts) t n :=
  .group rfl rfl h

/-- An operator of any level can stand between parentheses. -/
theorem writes_binary (op : Operator) {left right : Tree} (hl : Writes .expression left)
    (hr : Writes .expression right) : Writes .expression (.binary op left right) := by
  obtain ⟨m, hdl, hm⟩ := hl
  obtain ⟨n, hdr, hn⟩ := hr
  obtain ⟨k, hd, hk⟩ : ∃ k, Derives .expression (binary op left right).grouped
      (.binary op left right) (k + 1) ∧ k ≤ max m (n + 1) :=
    Derives.expression_binary rfl (derives_inParens hdl) (derives_inParens hdr)
  refine ⟨k + 1, hd, ?_⟩
  simp only [Role.spare, height] at hm hn ⊢
  omega

theorem writes_path {steps : List Tree} (h : ∀ t ∈ steps, Writes .step t)
    (hlen : 2 ≤ steps.length) : Writes .expression (.path steps) := by
  cases steps with
  | nil => cases hlen
  | cons t ts =>
    obtain ⟨n, hd, hn⟩ := writesAll .slash h
    refine .of_member (.path hd hlen) ?_
    simp only [Role.spare, height] at hn ⊢
    omega

theorem writes_absolutePath {steps : List Tree} (h : ∀ t ∈ steps, Writes .step t) :
    Writes .expression (.absolutePath steps) := by
  cases steps with
  | nil => exact .of_member (.root rfl) (by decide)
  | cons t ts =>
    obtain ⟨n, hd, hn⟩ := writesAll .slash h
    refine .of_member (.absolute rfl hd) ?_
    simp only [Role.spare, height] at hn ⊢
    omega

theorem nodeTest_grouped {test : Tree} (h : test.isNodeTest = true) :
    Grammar.NodeTest test.grouped test := by
  cases test with
  | nameTest qualifier name =>
    cases qualifier with
    | none => exact .name rfl
    | some qualifier => exact .qualified rfl rfl rfl
  | nodeType name => exact .nodeType rfl
  | _ => cases h

theorem writes_step (axis : Axis) {test : Tree} (h : test.isNodeTest = true) :
    Writes .step (.step axis test) := by
  refine ⟨0, .axis rfl (Axis.ofName?_name axis) (nodeTest_grouped h), ?_⟩
  simp only [Role.spare, height]
  omega

theorem writes_predicate {base filter : Tree} (hb : Writes .step base)
    (hf : Writes .expression filter) : Writes .step (.predicate base filter) := by
  obtain ⟨m, hdb, hm⟩ := hb
  obtain ⟨n, hdf, hn⟩ := hf
  refine ⟨max m n, .predicate rfl rfl hdb hdf, ?_⟩
  simp only [Role.spare, height] at hm hn ⊢
  omega

theorem writes_call (name : String) {arguments : List Tree}
    (h : ∀ t ∈ arguments, Writes .expression t) : Writes .step (.call name arguments) := by
  cases arguments with
  | nil => exact ⟨0, .emptyCall rfl rfl rfl, Nat.le_refl 2⟩
  | cons t ts =>
    obtain ⟨n, hd, hn⟩ := writesAll .comma h
    refine ⟨n, .call rfl rfl rfl hd, ?_⟩
    simp only [Role.spare, height] at hn ⊢
    omega

theorem writes_leaf {t : Tree} {x : Token} (h : Grammar.Leaf x t) (hx : t.grouped = [x]) :
    Writes .expression t := by
  have hd : Derives .member t.grouped t 0 := by
    rw [hx]
    exact .leaf h
  have := t.height_pos
  exact .of_member hd (by omega)

end Tree

namespace Token

variable {ts : List Token}

def Kind.isMark : Kind → Bool
  | colon | comma | openBracket | closeBracket | openParen | closeParen | slash => true
  | _ => false

structure Trailing (ts : List Token) : Prop where
  legible : ∀ afterOperand, AllLegible afterOperand ts
  noParens : ¬EmptyParens ts

theorem trailing_nil : Trailing [] :=
  ⟨fun _ => trivial, fun ⟨_, _, _, h, _⟩ => by cases h⟩

theorem allLegible_mark (kind : Kind) (hk : kind.isMark = true) (h : AllLegible kind.endsOperand ts)
    (afterOperand : Bool) : AllLegible afterOperand (.ofKind kind :: ts) := by
  refine ⟨?_, h⟩
  cases kind <;> first | exact ⟨rfl, trivial⟩ | cases hk

theorem trailing_mark (kind : Kind) (hk : kind.isMark = true) (hne : kind ≠ .openParen)
    (h : AllLegible kind.endsOperand ts) : Trailing (.ofKind kind :: ts) := by
  refine ⟨allLegible_mark kind hk h, ?_⟩
  rintro ⟨o, c, more, heq, ho, -⟩
  cases heq
  exact hne ho

theorem allLegible_name {name : String} (hname : Text.isNameOrStar name = true)
    (hempty : name ∈ Lexeme.nodeTypes → ¬EmptyParens ts) (h : AllLegible true ts) :
    AllLegible false (.carrying .name name :: ts) :=
  ⟨⟨rfl, hname, fun _ => rfl, rfl, hempty⟩, h⟩

end Token

namespace Tree

open Token (Trailing trailing_nil trailing_mark allLegible_mark allLegible_name)

def Legible (t : Tree) : Prop :=
  ∀ rest, Trailing rest → AllLegible false (t.grouped ++ rest)

theorem legibleAll {mark : Token.Kind} (hmark : mark = .slash ∨ mark = .comma) {ts : List Tree}
    (h : ∀ t ∈ ts, t.Legible) {rest : List Token} (hrest : Trailing rest) :
    AllLegible false (tokensBetween inParens mark ts ++ rest) := by
  cases ts with
  | nil => exact hrest.legible false
  | cons t ts =>
    induction ts generalizing t with
    | nil => simpa [tokensBetween, tokensBehind, grouped] using h t List.mem_cons_self rest hrest
    | cons u ts ih =>
      have others := ih u fun v hv => h v (List.mem_cons_of_mem _ hv)
      have first := h t List.mem_cons_self
      have behind : Trailing (.ofKind mark :: (tokensBetween inParens mark (u :: ts) ++ rest)) := by
        rcases hmark with rfl | rfl
        · exact trailing_mark _ rfl (by decide) others
        · exact trailing_mark _ rfl (by decide) others
      simpa [tokensBetween, tokensBehind, grouped] using first _ behind

theorem legible_binary (op : Operator) {left right : Tree} (hl : left.Legible)
    (hr : right.Legible) : (binary op left right).Legible := by
  intro rest hrest
  have last := trailing_mark .closeParen rfl (by decide) (hrest.legible true)
  have second := allLegible_mark .openParen rfl (hr _ last) false
  have operator : AllLegible true (.ofKind (.operator op) :: .ofKind .openParen ::
      (right.grouped ++ .ofKind .closeParen :: rest)) :=
    ⟨⟨rfl, fun _ => rfl⟩, second⟩
  have middle := trailing_mark .closeParen rfl (by decide) operator
  have first := allLegible_mark .openParen rfl (hl _ middle) false
  simpa [grouped, tokensWith, inParens] using first

theorem legible_step (axis : Axis) {test : Tree} (h : test.isNodeTest = true) :
    (step axis test).Legible := by
  intro rest hrest
  have after : AllLegible false (test.grouped ++ rest) := by
    cases test with
    | nameTest qualifier name =>
      simp only [isNodeTest, Bool.and_eq_true] at h
      have name := allLegible_name h.2 (fun _ => hrest.noParens) (hrest.legible true)
      cases qualifier with
      | none => exact name
      | some qualifier =>
        have colon := trailing_mark .colon rfl (by decide) name
        exact allLegible_name (by simpa using h.1) (fun _ => colon.noParens) (colon.legible true)
    | nodeType name =>
      have hmem : name ∈ Lexeme.nodeTypes := by simpa [isNodeTest] using h
      exact ⟨⟨rfl, hmem⟩, hrest.legible true⟩
    | _ => cases h
  exact ⟨⟨rfl, axis, rfl⟩, after⟩

theorem legible_predicate {base filter : Tree} (hb : base.Legible) (hf : filter.Legible) :
    (predicate base filter).Legible := by
  intro rest hrest
  have last := trailing_mark .closeBracket rfl (by decide) (hrest.legible true)
  have bracket := trailing_mark .openBracket rfl (by decide) (hf _ last)
  simpa [grouped, tokensWith] using hb _ bracket

/-- A call with arguments is no node type test, and one without may not be named like one. -/
theorem legible_call {name : String} {arguments : List Tree}
    (hname : Text.isNameOrStar name = true) (hempty : arguments = [] → name ∉ Lexeme.nodeTypes)
    (hw : ∀ t ∈ arguments, Writes .expression t) (h : ∀ t ∈ arguments, t.Legible) :
    (call name arguments).Legible := by
  intro rest hrest
  have last := trailing_mark .closeParen rfl (by decide) (hrest.legible true)
  have inner := legibleAll (.inr rfl) h last
  have parens := allLegible_mark .openParen rfl inner true
  have whole : AllLegible false (.carrying .name name :: .ofKind .openParen ::
      (tokensBetween inParens .comma arguments ++ .ofKind .closeParen :: rest)) := by
    refine allLegible_name hname ?_ parens
    rintro hmem ⟨o, c, more, heq, -, hc⟩
    cases arguments with
    | nil => exact hempty rfl hmem
    | cons t ts =>
      obtain ⟨n, hd, -⟩ := hw t List.mem_cons_self
      obtain ⟨x, xs, hx, hbegins⟩ := hd.begins
      have head : x = c := by
        have same := (List.cons.inj heq).2
        rw [tokensBetween, show tokensWith inParens t = x :: xs from hx] at same
        exact (List.cons.inj same).1
      rw [head, hc] at hbegins
      cases hbegins
  simpa [grouped, tokensWith] using whole

theorem legible_token {t : Tree} {x : Token} (ht : t.grouped = [x])
    (hx : ∀ next, x.Legible false next) (hk : x.kind.endsOperand = true) : t.Legible := by
  intro rest hrest
  rw [ht]
  refine ⟨hx rest, ?_⟩
  rw [hk]
  exact hrest.legible true

/-- A well-formed tree can be written in its part, and what is written can be read. -/
theorem written_of_wellFormed {role : Role} {t : Tree} (h : t.wellFormed role = true) :
    Writes role t ∧ t.Legible := by
  refine wellFormed_induction (fun role t => Writes role t ∧ t.Legible)
    ?_ ?_ ?_ ?_ ?_ ?_ ?_ ?_ ?_ ?_ ?_ h
  · intro t h
    exact ⟨h.1.expression_of_step, h.2⟩
  · intro op left right hl hr
    exact ⟨writes_binary op hl.1 hr.1, legible_binary op hl.2 hr.2⟩
  · intro steps hlen h
    exact ⟨writes_path (fun t ht => (h t ht).1) hlen,
      fun rest hrest => legibleAll (.inl rfl) (fun t ht => (h t ht).2) hrest⟩
  · intro steps h
    refine ⟨writes_absolutePath fun t ht => (h t ht).1, ?_⟩
    intro rest hrest
    exact allLegible_mark .slash rfl (legibleAll (.inl rfl) (fun t ht => (h t ht).2) hrest) false
  · intro axis test h
    exact ⟨writes_step axis h, legible_step axis h⟩
  · intro base filter hb hf
    exact ⟨writes_predicate hb.1 hf.1, legible_predicate hb.2 hf.2⟩
  · intro name arguments hname hempty h
    exact ⟨writes_call name fun t ht => (h t ht).1,
      legible_call hname hempty (fun t ht => (h t ht).1) fun t ht => (h t ht).2⟩
  · intro text h
    exact ⟨writes_leaf (.literal rfl) rfl, legible_token rfl (fun _ => ⟨rfl, h⟩) rfl⟩
  · intro text h
    exact ⟨writes_leaf (.integer rfl) rfl, legible_token rfl (fun _ => ⟨rfl, h, fun _ => rfl⟩) rfl⟩
  · intro text h
    exact ⟨writes_leaf (.decimal rfl) rfl, legible_token rfl (fun _ => ⟨rfl, h, fun _ => rfl⟩) rfl⟩
  · intro name h
    exact ⟨writes_leaf (.reference rfl) rfl, legible_token rfl (fun _ => ⟨rfl, h⟩) rfl⟩

end Tree
end XPathSyntax
