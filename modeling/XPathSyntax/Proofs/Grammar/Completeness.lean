import XPathSyntax.Proofs.Grammar.Lookahead

/-! A derivation drives the parser. Where the tokens of a derivation are taken, and the token
behind them can follow, the parser of the form builds the tree of the derivation and goes on behind
it. Its cost is the nesting that the derivation needs, and the height of the tree unless the tree
is an operand of one token, which is never measured. -/

namespace XPathSyntax

/-- What the limit of height is compared with. -/
def Tree.charge : Tree → Nat
  | literal _ | integer _ | decimal _ | reference _ => 0
  | t => min t.height Count.top

def Subtree.ofTree (t : Tree) : Subtree :=
  ⟨t, min t.height Count.top⟩

namespace Tree

/-- What is charged for a tree is charged for the trees above it. -/
theorem charge_le (t : Tree) : t.charge ≤ min t.height Count.top := by
  cases t <;> simp [charge]

def charges (trees : List Tree) : Nat :=
  (trees.map charge).foldr max 0

theorem charges_le (trees : List Tree) : charges trees ≤ min (tallest trees) Count.top := by
  induction trees with
  | nil => simp [charges]
  | cons t trees ih =>
    have := charge_le t
    simp only [charges, List.map_cons, List.foldr_cons, tallest] at ih ⊢
    omega

end Tree

namespace Parser

open Grammar (Form NodeTest Derives DerivesAll follows pauses)

variable {limits : Limits} {k : Nat} {c d : Cursor} {ts us : List Token}

theorem costs_grow (limits : Limits) (k : Nat) (tree : Tree) (below : Nat) (c : Cursor) :
    Costs limits k 0 (min (below + 1) Count.top) ((grow limits tree (min below Count.top)).run c)
      (.done ⟨tree, min (below + 1) Count.top⟩ c) := by
  have height : Count.add (min below Count.top) 1 = min (below + 1) Count.top := by
    unfold Count.add
    omega
  rw [grow, height]
  split
  next high => exact .height high ⟨_, c, rfl⟩
  next fits => exact .within (Nat.zero_le _) (Nat.not_lt.1 fits) rfl

/-- A node above two trees. -/
theorem costs_grow_two (limits : Limits) (k : Nat) (t u : Tree) {v : Tree}
    (hheight : v.height = max t.height u.height + 1)
    (hcharge : v.charge = min v.height Count.top) (c : Cursor) :
    Costs limits k 0 v.charge
      ((grow limits v (max (Subtree.ofTree t).height (Subtree.ofTree u).height)).run c)
      (.done (.ofTree v) c) := by
  have below : max (Subtree.ofTree t).height (Subtree.ofTree u).height =
      min (max t.height u.height) Count.top := by
    simp only [Subtree.ofTree]
    omega
  rw [below, hcharge, Subtree.ofTree, hheight]
  exact costs_grow ..

theorem charge_two (t u : Tree) {v : Tree} (hheight : v.height = max t.height u.height + 1)
    (hcharge : v.charge = min v.height Count.top) :
    max t.charge (max u.charge v.charge) = v.charge := by
  have := t.charge_le
  have := u.charge_le
  omega

theorem foldr_height_ofTree (trees : List Tree) :
    ((trees.map Subtree.ofTree).map (·.height)).foldr max 0 =
      min (Tree.tallest trees) Count.top := by
  induction trees with
  | nil => simp [Tree.tallest]
  | cons t trees ih =>
    simp only [List.map_cons, List.foldr_cons, Tree.tallest, ih, Subtree.ofTree]
    omega

theorem costs_growOver (limits : Limits) (k : Nat) (build : List Tree → Tree) (trees : List Tree)
    (hbuild : (build trees).children = trees)
    (hcharge : (build trees).charge = min (build trees).height Count.top) (c : Cursor) :
    Costs limits k 0 (build trees).charge
      ((growOver limits build (trees.map .ofTree)).run c) (.done (.ofTree (build trees)) c) := by
  have parts : (trees.map Subtree.ofTree).map (·.tree) = trees := by
    simp [Subtree.ofTree, Function.comp_def]
  rw [growOver, parts, foldr_height_ofTree, hcharge, Subtree.ofTree, Tree.height_eq, hbuild]
  exact costs_grow ..

/-- The tokens lead the parser of the form to where it has built the tree and may go on with it. -/
def Reaches (limits : Limits) (form : Form) (ts : List Token) (t : Tree) (n : Nat) : Prop :=
  ∀ {k c d}, c.Takes ts d → pauses form d.lookahead.kind = true →
    Costs limits k n t.charge ((ofForm limits (entered limits k) form).run c)
      ((further limits (entered limits k) form (.ofTree t)).run d)

variable {form : Form} {t u : Tree} {m n : Nat} {l : Level} {op : Operator} {o : Token}

/-- In front of a token that can follow, the parser stops. -/
theorem Reaches.run (h : Reaches limits form ts t n) (ht : c.Takes ts d)
    (hf : follows form d.lookahead.kind = true) :
    Costs limits k n t.charge ((ofForm limits (entered limits k) form).run c)
      (.done (.ofTree t) d) := by
  rw [← run_further_of_follows limits (entered limits k) (.ofTree t) hf]
  exact h ht (Grammar.pauses_of_follows hf)

theorem reaches_expression (h : Reaches limits (.level .or) ts t n) :
    Reaches limits .expression ts t (n + 1) := by
  intro k c d ht hp
  cases k with
  | zero => exact .nesting (Nat.succ_pos n) ⟨_, c, rfl⟩
  | succ k => exact (h.run ht (Grammar.follows_or hp)).succ

theorem reaches_single (h : Reaches limits (Grammar.operand l) ts t n) :
    Reaches limits (.level l) ts t n := by
  intro k c d ht hp
  by_cases hl : l = .multiplicative
  · subst hl
    obtain ⟨hf, hnone⟩ := Grammar.follows_level hp
    have := (h.run (k := k) ht hf).bind_done (f := productFrom limits (entered limits k))
    rwa [productFrom, run_look_bind, hnone] at this
  · rw [Grammar.pauses_level hl] at hp
    rw [ofForm_level limits _ hl, further_level limits _ hl]
    exact (h.run ht hp).bind_done

theorem run_chainFrom (limits : Limits) (operand : Parser Subtree) {e : Cursor} (first : Subtree)
    (h : c.Takes (o :: us) e) (ho : o.kind = .operator op) (hop : op.level = l) :
    ∃ d, d.Takes us e ∧ (chainFrom limits l operand first).run c =
      (operand >>= fun right =>
        join limits op first right >>= chainFrom limits l operand).run d := by
  obtain ⟨d, hu, hrun⟩ := run_whileNext_of_some (operatorAt l)
    (fun op left => do join limits op left (← operand)) rfl first h
    (show operatorAt l o.kind = some op by simp [ho, operatorAt, hop])
  refine ⟨d, hu, hrun.trans ?_⟩
  rw [bind_assoc]
  rfl

theorem reaches_chain (hl : l ≠ .multiplicative) (hop : op.level = l)
    (ho : o.kind = .operator op) (h : Reaches limits (.level l) ts t m)
    (h' : Reaches limits (Grammar.operand l) us u n) :
    Reaches limits (.level l) (ts ++ o :: us) (.binary op t u) (max m n) := by
  intro k c e ht hp
  rw [Grammar.pauses_level hl] at hp
  obtain ⟨d, ht, hou⟩ := ht.split
  have pause : pauses (.level l) d.lookahead.kind = true := by
    rw [Grammar.pauses_level hl, ← hou.cons_inv.1, ho, ← hop]
    exact Grammar.follows_operand op
  have left := h (k := k) ht pause
  rw [further_level limits _ hl] at left ⊢
  obtain ⟨d', hu, hloop⟩ := run_chainFrom limits
    (ofForm limits (entered limits k) (Grammar.operand l)) (.ofTree t) hou ho hop
  have right := (h'.run (k := k) hu hp).bind_done (f := fun right =>
    join limits op (.ofTree t) right >>=
      chainFrom limits l (ofForm limits (entered limits k) (Grammar.operand l)))
  have joined := (costs_grow_two limits k t u (v := .binary op t u) rfl rfl e).bind_done
    (f := chainFrom limits l (ofForm limits (entered limits k) (Grammar.operand l)))
  rw [hloop] at left
  exact (left.trans (right.trans joined)).cast (by omega) (charge_two t u rfl rfl)

theorem reaches_product (hop : op.level = .multiplicative) (ho : o.kind = .operator op)
    (h : Reaches limits (.level .union) ts t m)
    (h' : Reaches limits (.level .multiplicative) us u n) :
    Reaches limits (.level .multiplicative) (ts ++ o :: us) (.binary op t u) (max m (n + 1)) := by
  intro k c e ht hp
  obtain ⟨d, ht, hou⟩ := ht.split
  have hd : d.lookahead.kind = .operator op := by rw [← hou.cons_inv.1, ho]
  have follow : follows (.level .union) d.lookahead.kind = true := by
    rw [hd]
    exact decide_eq_true (by rw [hop]; decide)
  have left := (h.run (k := k) ht follow).bind_done (f := productFrom limits (entered limits k))
  obtain ⟨d', hu, hrun⟩ := run_advance_bind (α := Subtree) hou
  have begins : operatorAt .multiplicative d.lookahead.kind = some op := by
    simp [hd, operatorAt, hop]
  rw [productFrom, run_look_bind] at left
  simp only [begins, hrun] at left
  have right : Costs limits k (n + 1) u.charge ((entered limits k .product).run d')
      (.done (.ofTree u) e) := by
    cases k with
    | zero => exact .nesting (Nat.succ_pos n) ⟨_, d', rfl⟩
    | succ k => exact (h'.run hu hp).succ
  have joined := costs_grow_two limits k t u (v := .binary op t u) rfl rfl e
  exact (left.trans (right.bind_done.trans joined)).cast (by omega) (charge_two t u rfl rfl)

/-! Lists of phrases. -/

def ReachesAll (limits : Limits) (form : Form) (mark : Token.Kind) (ts : List Token)
    (trees : List Tree) (n : Nat) : Prop :=
  ∀ {k c d} (hm : mark ≠ .endOfInput) (found : List Subtree), c.Takes ts d →
    follows form mark = true → follows form d.lookahead.kind = true →
    Costs limits k n (Tree.charges trees)
      ((ofForm limits (entered limits k) form >>= fun s =>
        separatedFrom mark (ofForm limits (entered limits k) form) hm (s :: found)).run c)
      ((separatedFrom mark (ofForm limits (entered limits k) form) hm
        ((trees.map .ofTree).reverse ++ found)).run d)

variable {mark : Token.Kind} {trees : List Tree}

theorem reachesAll_one (h : Reaches limits form ts t n) :
    ReachesAll limits form mark ts [t] n := by
  intro k c d hm found ht _ hf
  apply ((h.run ht hf).bind_done).cast rfl
  simp [Tree.charges]

theorem reachesAll_more {x : Token} (hx : x.kind = mark) (h : Reaches limits form ts t m)
    (h' : ReachesAll limits form mark us trees n) :
    ReachesAll limits form mark (ts ++ x :: us) (t :: trees) (max m n) := by
  intro k c e hm found ht hmark hf
  obtain ⟨d, ht, hxu⟩ := ht.split
  have hd : follows form d.lookahead.kind = true := by rwa [← hxu.cons_inv.1, hx]
  have first := (h.run (k := k) ht hd).bind_done (f := fun s =>
    separatedFrom mark (ofForm limits (entered limits k) form) hm (s :: found))
  obtain ⟨d', hu, hloop⟩ := run_whileNext_of_some
    (fun kind => if kind = mark then some () else none)
    (fun _ found => return (← ofForm limits (entered limits k) form) :: found) (if_neg hm.symm)
    (.ofTree t :: found) hxu (if_pos hx)
  have others := h' (k := k) hm (.ofTree t :: found) hu hmark hf
  rw [separatedFrom, hloop, bind_assoc] at first
  simp only [pure_bind] at first
  have collected : ((t :: trees).map Subtree.ofTree).reverse ++ found =
      (trees.map Subtree.ofTree).reverse ++ .ofTree t :: found := by simp
  rw [collected]
  exact first.trans others

theorem costs_separatedBy (h : ReachesAll limits form mark ts trees n) (hm : mark ≠ .endOfInput)
    (ht : c.Takes ts d) (hmark : follows form mark = true)
    (hf : follows form d.lookahead.kind = true) (hd : d.lookahead.kind ≠ mark) :
    Costs limits k n (Tree.charges trees)
      ((separatedBy mark (ofForm limits (entered limits k) form) hm).run c)
      (.done (trees.map .ofTree) d) := by
  have loop := (h (k := k) hm [] ht hmark hf).bind
    (f := fun reversed => (pure reversed.reverse : Parser (List Subtree)))
  have stop (found : List Subtree) :
      (separatedFrom mark (ofForm limits (entered limits k) form) hm found).run d =
        .done found d := run_whileNext_of_none _ (if_neg hd)
  have order : ((trees.map Subtree.ofTree).reverse ++ []).reverse = trees.map .ofTree := by simp
  rw [bind_assoc, run_bind_of_done (stop _), run_pure, order] at loop
  exact loop

/-! Members. -/

theorem run_leaf {x : Token} {build : String → Tree} (ht : c.Takes [x] d) :
    (leaf build).run c = .done ⟨build x.text, 1⟩ d := by
  obtain ⟨e, he, hrun⟩ := run_advance_bind (α := Subtree) ht
  rw [leaf, hrun, run_pure, he.eq_of_nil]

theorem reaches_leaf {x : Token} (h : Grammar.Leaf x t) : Reaches limits .member [x] t 0 := by
  intro k c d ht _
  obtain ⟨hx, -⟩ := ht.cons_inv
  change Costs limits k 0 _ ((member limits _).run c) _
  rw [member, run_look_bind, ← hx]
  cases h with
  | literal hk => simp only [hk]; exact .within (by omega) (Nat.zero_le _) (run_leaf ht)
  | integer hk => simp only [hk]; exact .within (by omega) (Nat.zero_le _) (run_leaf ht)
  | decimal hk => simp only [hk]; exact .within (by omega) (Nat.zero_le _) (run_leaf ht)
  | reference hk => simp only [hk]; exact .within (by omega) (Nat.zero_le _) (run_leaf ht)

theorem reaches_group {q : Token} (ho : o.kind = .openParen) (hq : q.kind = .closeParen)
    (h : Reaches limits .expression ts t n) : Reaches limits .member (o :: (ts ++ [q])) t n := by
  intro k c e ht _
  obtain ⟨hx, -⟩ := ht.cons_inv
  obtain ⟨c', ht, hrun⟩ := run_advance_bind (α := Subtree) ht
  obtain ⟨d, ht, hqe⟩ := ht.split
  have close : follows .expression d.lookahead.kind = true := by rw [← hqe.cons_inv.1, hq]; rfl
  obtain ⟨d', he, hclose⟩ := run_expect_bind (α := Subtree) hqe hq
  have inner := (h.run (k := k) ht close).bind_done (f := fun inner => do
    let _ ← expect .closeParen
    return inner)
  rw [hclose, run_pure, he.eq_of_nil] at inner
  change Costs limits k n _ ((member limits _).run c) _
  rw [member, run_look_bind, ← hx]
  simp only [ho]
  rw [hrun]
  exact inner

/-- A path begins like a step, so it is read as one. -/
theorem run_member_of_step (expression : Parser Subtree)
    (h : Grammar.begins .step c.lookahead.kind = true) :
    (member limits expression).run c = (relativePath limits expression).run c := by
  rw [member, run_look_bind]
  split <;> first | rfl | simp_all [Grammar.begins]

theorem costs_steps (h : ReachesAll limits .step .slash ts trees n) (ht : c.Takes ts d)
    (hf : follows .member d.lookahead.kind = true) :
    Costs limits k n (Tree.charges trees) ((steps limits (entered limits k .expression)).run c)
      (.done (trees.map .ofTree) d) := by
  obtain ⟨hstep, hslash, -⟩ := Grammar.follows_member hf
  exact costs_separatedBy h (by decide) ht rfl hstep hslash

theorem reaches_lone (hb : ∃ x us, ts = x :: us ∧ Grammar.begins .step x.kind = true)
    (h : Reaches limits .step ts t n) : Reaches limits .member ts t n := by
  intro k c d ht hf
  obtain ⟨x, us, rfl, hx⟩ := hb
  have only := (costs_steps (k := k) (reachesAll_one h) ht hf).bind_done (f := pathOver limits)
  change Costs limits k n _ ((member limits _).run c) _
  rw [run_member_of_step _ (by rwa [← ht.cons_inv.1])]
  exact only.cast rfl (Nat.max_eq_left (Nat.zero_le _))

theorem charge_over {build : List Tree → Tree} (hbuild : (build trees).children = trees)
    (hcharge : (build trees).charge = min (build trees).height Count.top) :
    max (Tree.charges trees) (build trees).charge = (build trees).charge := by
  have := Tree.charges_le trees
  rw [hcharge, Tree.height_eq, hbuild]
  omega

theorem exists_cons_cons {α : Type} {xs : List α} (h : 2 ≤ xs.length) :
    ∃ x y rest, xs = x :: y :: rest := by
  match xs, h with
  | x :: y :: rest, _ => exact ⟨x, y, rest, rfl⟩

theorem reaches_path (hb : ∃ x us, ts = x :: us ∧ Grammar.begins .step x.kind = true)
    (h : ReachesAll limits .step .slash ts trees n) (hlen : 2 ≤ trees.length) :
    Reaches limits .member ts (.path trees) n := by
  intro k c d ht hf
  obtain ⟨x, us, rfl, hx⟩ := hb
  have parts := (costs_steps (k := k) h ht hf).bind_done (f := pathOver limits)
  have built := costs_growOver limits k .path trees rfl rfl d
  change Costs limits k n _ ((member limits _).run c) _
  rw [run_member_of_step _ (by rwa [← ht.cons_inv.1])]
  obtain ⟨t, t', rest, rfl⟩ := exists_cons_cons hlen
  exact (parts.trans built).cast (by omega) (charge_over rfl rfl)

theorem reaches_root {x : Token} (hx : x.kind = .slash) :
    Reaches limits .member [x] (.absolutePath []) 0 := by
  intro k c d ht hf
  obtain ⟨-, -, hbegins⟩ := Grammar.follows_member hf
  obtain ⟨e, he, hrun⟩ := run_expect_bind (α := Subtree) ht hx
  have hc : c.lookahead.kind = .slash := by rw [← ht.cons_inv.1, hx]
  have built := costs_growOver limits k .absolutePath [] rfl rfl d
  change Costs limits k 0 _ ((member limits _).run c) _
  rw [member, run_look_bind]
  simp only [hc]
  rw [absolutePath, hrun, he.eq_of_nil, run_look_bind, hbegins]
  exact built

theorem reaches_absolute {x : Token} (hx : x.kind = .slash)
    (hb : ∃ x us, ts = x :: us ∧ Grammar.begins .step x.kind = true)
    (h : ReachesAll limits .step .slash ts trees n) :
    Reaches limits .member (x :: ts) (.absolutePath trees) n := by
  intro k c d ht hf
  obtain ⟨y, us, rfl, hy⟩ := hb
  have hc : c.lookahead.kind = .slash := by rw [← ht.cons_inv.1, hx]
  obtain ⟨e, he, hrun⟩ := run_expect_bind (α := Subtree) ht hx
  have hbegins : e.lookahead.kind.beginsStep = true := by
    rw [← he.cons_inv.1, ← Grammar.begins_step, hy]
  have parts := (costs_steps (k := k) h he hf).bind_done (f := growOver limits .absolutePath)
  have built := costs_growOver limits k .absolutePath trees rfl rfl d
  change Costs limits k n _ ((member limits _).run c) _
  rw [member, run_look_bind]
  simp only [hc]
  rw [absolutePath, hrun, run_look_bind, hbegins]
  exact (parts.trans built).cast (by omega) (charge_over rfl rfl)

/-! Steps. -/

theorem run_nameTest {x : Token} (h : NodeTest (x :: us) t) (hx : x.kind = .name)
    (ht : c.Takes us d) (hd : d.lookahead.kind ≠ .colon) :
    (nameTest x.text).run c = .done t d := by
  cases h with
  | name =>
    cases ht.eq_of_nil
    rw [nameTest, run_eat_bind_of_ne hd, if_neg Bool.false_ne_true, run_pure]
  | qualified _ hcolon hlocal =>
    obtain ⟨e, he, hrun⟩ := run_eat_bind (α := Tree) ht hcolon
    obtain ⟨e', he', hrun'⟩ := run_expect_bind (α := Tree) he hlocal
    rw [nameTest, hrun, if_pos rfl, hrun', run_pure, he'.eq_of_nil]
  | nodeType hk => simp [hk] at hx

/-- A name or the name of a node type comes first. -/
theorem NodeTest.cons_inv (h : NodeTest ts t) :
    (∃ x us, ts = x :: us ∧ x.kind = .name) ∨
      ∃ x, ts = [x] ∧ x.kind = .nodeType ∧ t = .nodeType x.text := by
  cases h with
  | name hx => exact .inl ⟨_, _, rfl, hx⟩
  | qualified hq => exact .inl ⟨_, _, rfl, hq⟩
  | nodeType hx => exact .inr ⟨_, rfl, hx, rfl⟩

theorem run_nodeTest (h : NodeTest ts t) (ht : c.Takes ts d) (hd : d.lookahead.kind ≠ .colon) :
    nodeTest.run c = .done t d := by
  rcases NodeTest.cons_inv h with ⟨x, us, rfl, hx⟩ | ⟨x, rfl, hx, rfl⟩
  · obtain ⟨e, he, hrun⟩ := run_advance_bind (α := Tree) ht
    rw [nodeTest, run_look_bind, ← ht.cons_inv.1]
    simp only [hx]
    rw [hrun, run_nameTest h hx he hd]
  · obtain ⟨e, he, hrun⟩ := run_advance_bind (α := Tree) ht
    rw [nodeTest, run_look_bind, ← ht.cons_inv.1]
    simp only [hx]
    rw [hrun, run_pure, he.eq_of_nil]

theorem costs_grow_step (limits : Limits) (k : Nat) (axis : Axis) (h : NodeTest ts t) (c : Cursor) :
    Costs limits k 0 (Tree.step axis t).charge ((grow limits (.step axis t) 1).run c)
      (.done (.ofTree (.step axis t)) c) := by
  have charge : (Tree.step axis t).charge = min (Tree.step axis t).height Count.top := rfl
  have := costs_grow limits k (.step axis t) 1 c
  rwa [Subtree.ofTree, charge, Tree.height, h.height]

/-- A step is reached as soon as the parser has built it without its predicates. -/
theorem reaches_plainStep
    (h : ∀ {k c d}, c.Takes ts d → pauses .step d.lookahead.kind = true →
      Costs limits k n t.charge ((plainStep limits (entered limits k .expression)).run c)
        (.done (.ofTree t) d)) :
    Reaches limits .step ts t n := by
  intro k c d ht hp
  exact (h ht hp).bind_done

theorem reaches_child (h : NodeTest ts t) : Reaches limits .step ts (.step .child t) 0 := by
  apply reaches_plainStep
  intro k c d ht hp
  obtain ⟨hcolon, hparen⟩ := Grammar.pauses_step hp
  have built := costs_grow_step limits k .child h d
  obtain ⟨x, us, rfl, hx⟩ | ⟨x, rfl, hx, rfl⟩ := NodeTest.cons_inv h
  · obtain ⟨e, he, hrun⟩ := run_advance_bind (α := Subtree) ht
    have hne : e.lookahead.kind ≠ .openParen := by
      rw [he.lookahead_eq]
      cases h with
      | name => exact hparen
      | qualified _ hcolon' => simp [hcolon']
      | nodeType hk => simp [hk] at hx
    rw [plainStep, run_look_bind, ← ht.cons_inv.1]
    simp only [hx]
    rw [hrun, run_eat_bind_of_ne hne, if_neg Bool.false_ne_true,
      run_bind_of_done (run_nameTest h hx he hcolon)]
    exact built
  · obtain ⟨e, he, hrun⟩ := run_advance_bind (α := Subtree) ht
    rw [plainStep, run_look_bind, ← ht.cons_inv.1]
    simp only [hx]
    rw [hrun, he.eq_of_nil]
    exact built

theorem reaches_axis {a : Token} {axis : Axis} (ha : a.kind = .axis)
    (haxis : Axis.ofName? a.text = some axis) (h : NodeTest ts t) :
    Reaches limits .step (a :: ts) (.step axis t) 0 := by
  apply reaches_plainStep
  intro k c d ht hp
  obtain ⟨e, he, hrun⟩ := run_advance_bind (α := Subtree) ht
  rw [plainStep, run_look_bind, ← ht.cons_inv.1]
  simp only [ha]
  rw [hrun]
  simp only [haxis]
  rw [run_bind_of_done (run_nodeTest h he (Grammar.pauses_step hp).1)]
  exact costs_grow_step limits k axis h d

/-- What a call does behind its left parenthesis. -/
theorem run_plainStep_of_call (limits : Limits) (expression : Parser Subtree) {f : Token}
    (ht : c.Takes (f :: o :: us) d) (hf : f.kind = .name) (ho : o.kind = .openParen) :
    ∃ e, e.Takes us d ∧ (plainStep limits expression).run c =
      (do
        let parts ← arguments expression
        let _ ← expect .closeParen
        growOver limits (.call f.text) parts : Parser Subtree).run e := by
  obtain ⟨b, hb, hrun⟩ := run_advance_bind (α := Subtree) ht
  obtain ⟨e, he, heat⟩ := run_eat_bind (α := Subtree) hb ho
  refine ⟨e, he, ?_⟩
  rw [plainStep, run_look_bind, ← ht.cons_inv.1]
  simp only [hf]
  rw [hrun, heat, if_pos rfl]

theorem reaches_emptyCall {f q : Token} (hf : f.kind = .name) (ho : o.kind = .openParen)
    (hq : q.kind = .closeParen) : Reaches limits .step [f, o, q] (.call f.text []) 0 := by
  apply reaches_plainStep
  intro k c d ht _
  obtain ⟨e, he, hrun⟩ :=
    run_plainStep_of_call limits (entered limits k .expression) ht hf ho
  obtain ⟨e', he', hclose⟩ := run_expect_bind (α := Subtree) he hq
  rw [hrun, arguments, bind_assoc, run_look_bind, if_pos (by rw [← he.cons_inv.1, hq]), pure_bind,
    hclose, he'.eq_of_nil]
  exact costs_growOver limits k (.call f.text) [] rfl rfl d

theorem reaches_call {f q : Token} (hf : f.kind = .name) (ho : o.kind = .openParen)
    (hq : q.kind = .closeParen)
    (hb : ∃ x us, ts = x :: us ∧ Grammar.begins .expression x.kind = true)
    (h : ReachesAll limits .expression .comma ts trees n) :
    Reaches limits .step (f :: o :: (ts ++ [q])) (.call f.text trees) n := by
  apply reaches_plainStep
  intro k c d ht _
  obtain ⟨x, us, rfl, hx⟩ := hb
  obtain ⟨e, he, hrun⟩ :=
    run_plainStep_of_call limits (entered limits k .expression) ht hf ho
  have hne : e.lookahead.kind ≠ .closeParen := by
    intro h
    rw [he.cons_inv.1, h] at hx
    cases hx
  obtain ⟨b, he, hqd⟩ := he.split
  have hb : b.lookahead.kind = .closeParen := by rw [← hqd.cons_inv.1, hq]
  obtain ⟨b', hb', hclose⟩ := run_expect_bind (α := Subtree) hqd hq
  have parts := (costs_separatedBy (k := k) h (by decide) he rfl (by rw [hb]; rfl)
    (by simp [hb])).bind_done (f := fun parts => do
      let _ ← expect .closeParen
      growOver limits (.call f.text) parts)
  rw [hclose, hb'.eq_of_nil] at parts
  rw [hrun, arguments, bind_assoc, run_look_bind, if_neg hne]
  have built := costs_growOver limits k (.call f.text) trees rfl rfl d
  exact (parts.trans built).cast (by omega) (charge_over rfl rfl)

theorem run_predicates (limits : Limits) (expression : Parser Subtree) {e : Cursor} (base : Subtree)
    (h : c.Takes (o :: us) e) (ho : o.kind = .openBracket) :
    ∃ d, d.Takes us e ∧ (predicates limits expression base).run c =
      (do
        let filter ← expression
        let _ ← expect .closeBracket
        let narrowed ← grow limits (.predicate base.tree filter.tree)
          (max base.height filter.height)
        predicates limits expression narrowed : Parser Subtree).run d := by
  obtain ⟨d, hu, hrun⟩ := run_whileNext_of_some
    (fun kind => if kind = .openBracket then some () else none)
    (fun _ base => do
      let filter ← expression
      let _ ← expect .closeBracket
      grow limits (.predicate base.tree filter.tree) (max base.height filter.height))
    rfl base h (if_pos ho)
  refine ⟨d, hu, hrun.trans ?_⟩
  simp only [bind_assoc]
  rfl

theorem reaches_predicate {q : Token} (ho : o.kind = .openBracket) (hq : q.kind = .closeBracket)
    (h : Reaches limits .step ts t m) (h' : Reaches limits .expression us u n) :
    Reaches limits .step (ts ++ o :: (us ++ [q])) (.predicate t u) (max m n) := by
  intro k c e ht _
  obtain ⟨d, ht, hou⟩ := ht.split
  have hd : d.lookahead.kind = .openBracket := by rw [← hou.cons_inv.1, ho]
  have base := h (k := k) ht (by rw [hd]; rfl)
  obtain ⟨d', hu, hloop⟩ := run_predicates limits (entered limits k .expression) (.ofTree t) hou ho
  obtain ⟨b, hu, hqe⟩ := hu.split
  have hb : follows .expression b.lookahead.kind = true := by rw [← hqe.cons_inv.1, hq]; rfl
  obtain ⟨b', hb', hclose⟩ := run_expect_bind (α := Subtree) hqe hq
  have filter := (h'.run (k := k) hu hb).bind_done (f := fun filter => do
    let _ ← expect .closeBracket
    let narrowed ← grow limits (.predicate t filter.tree)
      (max (Subtree.ofTree t).height filter.height)
    predicates limits (entered limits k .expression) narrowed)
  rw [hclose, hb'.eq_of_nil] at filter
  have built := (costs_grow_two limits k t u (v := .predicate t u) rfl rfl e).bind_done
    (f := predicates limits (entered limits k .expression))
  rw [further, hloop] at base
  exact (base.trans (filter.trans built)).cast (by omega) (charge_two t u rfl rfl)

/-! Every derivation. -/

mutual

theorem reaches_of_derives {form ts t n} : Derives form ts t n → Reaches limits form ts t n
  | .expression h => reaches_expression (reaches_of_derives h)
  | .single h => reaches_single (reaches_of_derives h)
  | .chain hl hop ho h h' =>
    reaches_chain hl hop ho (reaches_of_derives h) (reaches_of_derives h')
  | .product hop ho h h' => reaches_product hop ho (reaches_of_derives h) (reaches_of_derives h')
  | .leaf h => reaches_leaf h
  | .group ho hq h => reaches_group ho hq (reaches_of_derives h)
  | .lone h => reaches_lone h.begins (reaches_of_derives h)
  | .path h hlen => reaches_path h.begins (reachesAll_of_derivesAll h) hlen
  | .root hs => reaches_root hs
  | .absolute hs h => reaches_absolute hs h.begins (reachesAll_of_derivesAll h)
  | .emptyCall hf ho hq => reaches_emptyCall hf ho hq
  | .call hf ho hq h => reaches_call hf ho hq h.begins (reachesAll_of_derivesAll h)
  | .child h => reaches_child h
  | .axis ha haxis h => reaches_axis ha haxis h
  | .predicate ho hq h h' =>
    reaches_predicate ho hq (reaches_of_derives h) (reaches_of_derives h')

theorem reachesAll_of_derivesAll {form mark ts trees n} :
    DerivesAll form mark ts trees n → ReachesAll limits form mark ts trees n
  | .one h => reachesAll_one (reaches_of_derives h)
  | .more hk h h' => reachesAll_more hk (reaches_of_derives h) (reachesAll_of_derivesAll h')

end

/-- In front of the end of input, a derivation costs its nesting and the charge of its tree. -/
theorem costs_sentence (limits : Limits) {t : Tree} (h : Derives .expression ts t n)
    (ht : c.Takes ts d) (hd : d.lookahead.kind = .endOfInput) :
    Costs limits limits.nesting n t.charge ((sentence limits).run c) (.done t d) := by
  have reached : Reaches limits .expression ts t n := reaches_of_derives h
  have whole := (reached.run (k := limits.nesting) ht (by rw [hd]; rfl)).bind_done
    (f := fun whole => do
      let found ← look
      if found.kind = .endOfInput then return whole.tree else reject (.trailing found))
  rwa [run_look_bind, if_pos hd, run_pure] at whole

end Parser
end XPathSyntax
