import XPathSyntax.Proofs.Grammar.Acceptance

/-! The limits are charged exactly. Of the tokens that derive a tree, the limit of nesting is
charged with the need of the derivation, the limit of height with the height of the tree, and an
operand of one token with no height at all. -/

namespace XPathSyntax

open Grammar (Form Derives)

namespace Tree

def isOperandToken : Tree → Bool
  | literal _ | integer _ | decimal _ | reference _ => true
  | _ => false

theorem charge_le_iff {t : Tree} {limit : Nat} (hl : limit < Count.top) :
    t.charge ≤ limit ↔ t.isOperandToken = true ∨ t.height ≤ limit := by
  have capped {h : Nat} : min h Count.top ≤ limit ↔ h ≤ limit := by omega
  cases t <;> simp [charge, isOperandToken, capped]

theorem lt_height_of_lt_charge {t : Tree} {limit : Nat} (h : limit < t.charge) :
    limit < t.height := by
  have := t.charge_le
  omega

theorem tallest_le_of_charges {trees : List Tree} {limit : Nat} (h : ∀ t ∈ trees, t.charge ≤ limit)
    (hlimit : 1 ≤ limit) : min (tallest trees) Count.top ≤ limit := by
  induction trees with
  | nil => simp [tallest]
  | cons t trees ih =>
    rw [List.forall_mem_cons] at h
    have first : min t.height Count.top ≤ limit := by
      cases t with
      | literal | integer | decimal | reference => exact Nat.le_trans (Nat.min_le_left ..) hlimit
      | _ => exact h.1
    have others := ih h.2
    rw [tallest]
    omega

/-- A tree is charged one more than the trees below it at most, as long as the limit admits a single
node. -/
theorem charge_le_of_children {t : Tree} {limit : Nat} (h : ∀ s ∈ t.children, s.charge ≤ limit)
    (hlimit : 1 ≤ limit) : t.charge ≤ limit + 1 := by
  have charge := t.charge_le
  have below := tallest_le_of_charges h hlimit
  rw [height_eq] at charge
  omega

end Tree

/-- Below the largest count, the height that is kept with a tree is the height of the tree. -/
theorem Parser.height_of_done {limits : Limits} (hl : limits.height < Count.top) {form : Form}
    {inner : Nat} {c d : Cursor} {s : Subtree}
    (h : (ofForm limits (entered limits inner) form).run c = .done s d) :
    s.height = s.tree.height := by
  have reads := reads_ofForm (reads_entered limits inner .expression)
    (reads_entered limits inner .product) form c
  obtain ⟨us, -, -, hm⟩ := reads.of_done h
  exact hm hl

theorem limits_charged_exactly {ts : List Token} {t : Tree} {n : Nat}
    (h : Derives .expression ts t n) (limits : Limits) (hl : limits.height < Count.top) :
    (parseSource limits (ts.map .token) = .ok (some t) ↔
      n ≤ limits.nesting ∧ (t.isOperandToken = true ∨ t.height ≤ limits.height)) ∧
    (parseSource limits (ts.map .token) = .ok (some t) ∨
      limits.nesting < n ∧
        (∃ line, parseSource limits (ts.map .token) = .error (.tooDeep limits.nesting line)) ∨
      limits.height < t.height ∧
        ∃ line, parseSource limits (ts.map .token) = .error (.tooDeep limits.height line)) ∧
    ∀ (form : Form) (inner : Nat) (c d : Cursor) (s : Subtree),
      (Parser.ofForm limits (Parser.entered limits inner) form).run c = .done s d →
        s.height = s.tree.height := by
  refine ⟨?_, ?_, fun _ _ _ _ _ hrun => Parser.height_of_done hl hrun⟩
  · rw [← Tree.charge_le_iff hl]
    rcases parseSource_of_derives limits h with ⟨hn, hh, ho⟩ | ⟨hn, line, ho⟩ | ⟨hh, line, ho⟩
    · simp [ho, hn, hh]
    · simp [ho, Nat.not_le.2 hn]
    · simp [ho, Nat.not_le.2 hh]
  · rcases parseSource_of_derives limits h with ⟨-, -, ho⟩ | ⟨hn, ho⟩ | ⟨hh, ho⟩
    · exact .inl ho
    · exact .inr (.inl ⟨hn, ho⟩)
    · exact .inr (.inr ⟨Tree.lt_height_of_lt_charge hh, ho⟩)

/-- The step `a[b]` needs a nesting of two and a height of three, and no less. -/
theorem limits_charged_exactly_to_predicate :
    let ts : List Token := [⟨.name, some "a", none⟩, ⟨.openBracket, none, none⟩,
      ⟨.name, some "b", none⟩, ⟨.closeBracket, none, none⟩]
    let t : Tree :=
      .predicate (.step .child (.nameTest none "a")) (.step .child (.nameTest none "b"))
    Derives .expression ts t 2 ∧ 3 < Count.top ∧
      parseSource ⟨2, 3⟩ (ts.map .token) = .ok (some t) ∧
      parseSource ⟨1, 3⟩ (ts.map .token) ≠ .ok (some t) ∧
      parseSource ⟨2, 2⟩ (ts.map .token) ≠ .ok (some t) := by
  intro ts t
  have name (x : String) :
      Derives .step [⟨.name, some x, none⟩] (.step .child (.nameTest none x)) 0 :=
    .child (.name rfl)
  have filter := (Derives.lone (name "b")).expression_of_member
  have h : Derives .expression ts t 2 :=
    (Derives.lone (.predicate rfl rfl (name "a") filter)).expression_of_member
  have charged (limits : Limits) (hl : limits.height < Count.top) :=
    (limits_charged_exactly h limits hl).1
  refine ⟨h, by decide, (charged _ (by decide)).2 (by decide), ?_, ?_⟩
  · rw [Ne, charged _ (by decide)]
    decide
  · rw [Ne, charged _ (by decide)]
    decide

end XPathSyntax
