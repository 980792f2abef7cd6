import XPathSyntax.Proofs.Grammar.Forms
import XPathSyntax.Proofs.Parser.Reading

/-! Every parser of the grammar reads the phrases of its form: what it takes derives the tree that
it builds, whatever it takes before it fails is the beginning of a phrase, and below the largest
count the height that it keeps with a tree is the height of the tree. -/

namespace XPathSyntax

open Grammar (Form NodeTest Derives DerivesAll)

namespace Parser

variable (limits : Limits)

/-- The height kept with a tree is its own, unless the limit lets it pass the largest count. -/
def Measured (s : Subtree) : Prop :=
  limits.height < Count.top → s.height = s.tree.height

def Phrase (form : Form) (us : List Token) (s : Subtree) : Prop :=
  (∃ n, Derives form us s.tree n) ∧ Measured limits s

def Phrases (form : Form) (mark : Token.Kind) (us : List Token) (parts : List Subtree) : Prop :=
  (∃ n, DerivesAll form mark us (parts.map (·.tree)) n) ∧ ∀ s ∈ parts, Measured limits s

variable {limits} {form : Form} {c : Cursor}

theorem Phrase.of_derives {us : List Token} {t : Tree} {n : Nat} (h : Derives form us t n) :
    Phrase limits form us ⟨t, t.height⟩ :=
  ⟨⟨n, h⟩, fun _ => rfl⟩

variable (limits) in
theorem exists_phrase (form : Form) : ∃ us s, Phrase limits form us s := by
  have name : Derives .step [⟨.name, none, none⟩] (.step .child (.nameTest none "")) 0 :=
    .child (.name rfl)
  obtain ⟨n, h⟩ := name.of_step form
  exact ⟨_, _, .of_derives h⟩

theorem foldr_height_eq_tallest {parts : List Subtree} (h : ∀ s ∈ parts, s.height = s.tree.height) :
    (parts.map (·.height)).foldr max 0 = Tree.tallest (parts.map (·.tree)) := by
  induction parts with
  | nil => rfl
  | cons s parts ih =>
    simp only [List.map_cons, List.foldr_cons, Tree.tallest]
    rw [h s List.mem_cons_self, ih fun s hs => h s (List.mem_cons_of_mem _ hs)]

/-- What `more` completes to a derivation can become a phrase. -/
theorem open_of_derives {behind : List Token → List Token} {us all : List Token} {t : Tree}
    {n : Nat} (more : List Token) (h : Derives form all t n) (hall : behind (us ++ more) = all) :
    Open (fun vs s => Phrase limits form (behind vs) s) us := by
  subst hall
  exact ⟨more, _, .of_derives h⟩

/-- A node that is built is one higher than what it stands on. -/
theorem reads_grow {tree : Tree} {below : Nat} {P : List Token → Subtree → Prop}
    (h : ∀ s : Subtree, s.tree = tree →
      (limits.height < Count.top → s.height = below + 1) → P [] s) :
    (grow limits tree below).Reads P c := by
  unfold grow
  split
  next => exact .tooDeep _
  next fits =>
    refine .pure _ (h _ rfl ?_)
    intro hl
    unfold Count.add at fits ⊢
    dsimp only
    omega

theorem reads_growOver {build : List Tree → Tree} {parts : List Subtree}
    {P : List Token → Subtree → Prop} (hparts : ∀ s ∈ parts, Measured limits s)
    (hbuild : (build (parts.map (·.tree))).children = parts.map (·.tree))
    (h : ∀ s : Subtree, s.tree = build (parts.map (·.tree)) → Measured limits s → P [] s) :
    (growOver limits build parts).Reads P c := by
  apply reads_grow
  intro s hs hh
  apply h s hs
  intro hl
  rw [hh hl, hs, Tree.height_eq, hbuild, foldr_height_eq_tallest fun s hs => hparts s hs hl]

theorem reads_join {op : Operator} {left right : Subtree} {P : List Token → Subtree → Prop}
    (hl : Measured limits left) (hr : Measured limits right)
    (h : ∀ s : Subtree, s.tree = .binary op left.tree right.tree → Measured limits s → P [] s) :
    (join limits op left right).Reads P c := by
  apply reads_grow
  intro s hs hh
  apply h s hs
  intro hlim
  rw [hh hlim, hs, hl hlim, hr hlim, Tree.height]

theorem operatorAt_eq_some {l : Level} {kind : Token.Kind} {op : Operator}
    (h : operatorAt l kind = some op) : kind = .operator op ∧ op.level = l := by
  unfold operatorAt at h
  split at h
  next => grind
  next => cases h

theorem reads_chain {l : Level} {operand : Parser Subtree} (hl : l ≠ .multiplicative)
    (ho : ∀ c, operand.Reads (Phrase limits (Grammar.operand l)) c) :
    (chain limits l operand).Reads (Phrase limits (.level l)) c := by
  refine .bind (ho c) ?_ ?_
  · rintro us s ⟨⟨n, hd⟩, -⟩
    exact open_of_derives [] (.single hd) (by simp)
  · rintro us s d - ⟨⟨n, hd⟩, hm⟩
    refine .whileNext ?_ ?_ ⟨⟨n, .single hd⟩, hm⟩
    · rintro us s x op ⟨⟨m, hs⟩, -⟩ hop
      obtain ⟨hx, hlevel⟩ := operatorAt_eq_some hop
      obtain ⟨vs, s', ⟨n, hs'⟩, -⟩ := exists_phrase limits (Grammar.operand l)
      exact open_of_derives vs (.chain hl hlevel hx hs hs') (by simp)
    · rintro us s x op d ⟨⟨m, hs⟩, hsm⟩ hop
      obtain ⟨hx, hlevel⟩ := operatorAt_eq_some hop
      refine .bind (ho d) ?_ ?_
      · rintro vs s' ⟨⟨n, hs'⟩, -⟩
        exact open_of_derives [] (.chain hl hlevel hx hs hs') (by simp)
      · rintro vs s' e - ⟨⟨n, hs'⟩, hsm'⟩
        apply reads_join hsm hsm'
        intro j hj hm
        refine ⟨⟨max m n, ?_⟩, hm⟩
        rw [hj, List.append_nil]
        exact .chain hl hlevel hx hs hs'

theorem Phrases.one {mark : Token.Kind} {us : List Token} {s : Subtree}
    (h : Phrase limits form us s) : Phrases limits form mark us [s] := by
  obtain ⟨⟨n, hd⟩, hm⟩ := h
  exact ⟨⟨n, .one hd⟩, by simpa using hm⟩

theorem Phrases.snoc {mark : Token.Kind} {us vs : List Token} {x : Token} {parts : List Subtree}
    {s : Subtree} (h : Phrases limits form mark us parts) (hx : x.kind = mark)
    (hs : Phrase limits form vs s) : Phrases limits form mark (us ++ x :: vs) (parts ++ [s]) := by
  obtain ⟨⟨m, hd⟩, hparts⟩ := h
  obtain ⟨⟨n, hd'⟩, hm⟩ := hs
  refine ⟨⟨max m n, by simpa using hd.snoc hx hd'⟩, ?_⟩
  intro s' hs'
  rcases List.mem_append.1 hs' with hs' | hs'
  · exact hparts s' hs'
  · rwa [List.mem_singleton.1 hs']

theorem reads_separatedBy {item : Parser Subtree} {mark : Token.Kind} {hm : mark ≠ .endOfInput}
    (hi : ∀ c, item.Reads (Phrase limits form) c) :
    (separatedBy mark item hm).Reads (Phrases limits form mark) c := by
  -- the loop keeps what it has found in reverse order
  let Found (us : List Token) (found : List Subtree) : Prop :=
    Phrases limits form mark us found.reverse
  have snoc {us x vs found s} (h : Found us found) (hx : x.kind = mark)
      (hs : Phrase limits form vs s) : Found (us ++ x :: vs) (s :: found) := by
    simpa only [Found, List.reverse_cons] using Phrases.snoc h hx hs
  refine .bind (hi c) (fun us s hs => ⟨[], [s], by simpa using Phrases.one hs⟩) ?_
  intro us s d _ hs
  refine .bind (.whileNext (P := Found) ?_ ?_ (Phrases.one hs)) ?_ ?_
  · intro us found x b hfound hb
    obtain ⟨vs, s', hs'⟩ := exists_phrase limits form
    exact ⟨vs, s' :: found, by simpa using snoc hfound (Option.ite_none_right_eq_some.1 hb).1 hs'⟩
  · intro us found x b d hfound hb
    refine .bind (hi d) (fun vs s' hs' => ⟨[], s' :: found, ?_⟩) ?_
    · simpa using snoc hfound (Option.ite_none_right_eq_some.1 hb).1 hs'
    · intro vs s' e _ hs'
      exact .pure _ (by simpa using snoc hfound (Option.ite_none_right_eq_some.1 hb).1 hs')
  · intro vs found h
    exact ⟨[], found.reverse, by simpa using h⟩
  · intro vs found e _ h
    exact .pure _ (by simpa using h)

theorem reads_nameTest {x : Token} (hx : x.kind = .name) :
    (nameTest x.text).Reads (fun us t => NodeTest (x :: us) t) c := by
  refine .eat_bind (by decide) ?_ ?_ ?_
  · intro hc
    exact ⟨[⟨.name, none, none⟩], _, .qualified hx hc rfl⟩
  · intro d hc _
    refine .bind (.expect (by decide)) ?_ ?_
    · rintro us y ⟨rfl, hy⟩
      exact ⟨[], _, .qualified hx hc hy⟩
    · rintro us y e - ⟨rfl, hy⟩
      exact .pure _ (.qualified hx hc hy)
  · intro _
    exact .pure _ (.name hx)

theorem reads_nodeTest : nodeTest.Reads NodeTest c := by
  refine .look_bind ?_
  split
  next hk =>
    refine .advance_bind (by simp [hk]) ⟨[], _, .name hk⟩ ?_
    intro d _
    exact reads_nameTest hk
  next hk =>
    refine .advance_bind (by simp [hk]) ⟨[], _, .nodeType hk⟩ ?_
    intro d _
    exact .pure _ (.nodeType hk)
  next => exact .reject ⟨[⟨.name, none, none⟩], _, .name rfl⟩ rfl

theorem reads_arguments {expression : Parser Subtree}
    (he : ∀ c, expression.Reads (Phrase limits .expression) c) :
    (arguments expression).Reads
      (fun us parts => us = [] ∧ parts = [] ∨ Phrases limits .expression .comma us parts) c := by
  refine .look_bind ?_
  split
  next => exact .pure _ (.inl ⟨rfl, rfl⟩)
  next => exact (reads_separatedBy he).mono fun us parts h => .inr h

theorem exists_kind (kind : Token.Kind) : ∃ x : Token, x.kind = kind :=
  ⟨⟨kind, none, none⟩, rfl⟩

/-- What follows the name and the left parenthesis of a call. -/
theorem reads_call {f o : Token} (hf : f.kind = .name) (ho : o.kind = .openParen)
    {expression : Parser Subtree} (he : ∀ c, expression.Reads (Phrase limits .expression) c) :
    (do
      let parts ← arguments expression
      let _ ← expect .closeParen
      growOver limits (.call f.text) parts).Reads
      (fun us s => Phrase limits .step (f :: o :: us) s) c := by
  have derives {us parts q} (h : us = [] ∧ parts = [] ∨ Phrases limits .expression .comma us parts)
      (hq : q.kind = .closeParen) :
      ∃ n, Derives .step (f :: o :: (us ++ [q])) (.call f.text (parts.map (·.tree))) n := by
    rcases h with ⟨rfl, rfl⟩ | ⟨⟨n, hd⟩, -⟩
    · exact ⟨0, .emptyCall hf ho hq⟩
    · exact ⟨n, .call hf ho hq hd⟩
  refine .bind (reads_arguments he) ?_ ?_
  · intro us parts h
    obtain ⟨q, hq⟩ := exists_kind .closeParen
    obtain ⟨n, hd⟩ := derives h hq
    exact open_of_derives [q] hd rfl
  · intro us parts d _ h
    refine .bind (.expect (by decide)) ?_ ?_
    · rintro vs q ⟨rfl, hq⟩
      obtain ⟨n, hd⟩ := derives h hq
      exact open_of_derives [] hd (by simp)
    · rintro vs q e - ⟨rfl, hq⟩
      obtain ⟨n, hd⟩ := derives h hq
      refine reads_growOver ?_ rfl ?_
      · rcases h with ⟨-, rfl⟩ | ⟨-, hparts⟩
        · simp
        · exact hparts
      · intro s hs hm
        exact ⟨⟨n, by simpa [hs] using hd⟩, hm⟩

/-- A step is built on the test that has been read. -/
theorem reads_grow_step {us : List Token} {axis : Axis} {t : Tree} (ht : t.height = 1)
    (hd : Derives .step us (.step axis t) 0) {P : List Token → Subtree → Prop}
    (hP : ∀ s, Phrase limits .step us s → P [] s) :
    (grow limits (.step axis t) 1).Reads P c := by
  apply reads_grow
  intro s hs hh
  refine hP s ⟨⟨0, hs ▸ hd⟩, ?_⟩
  intro hl
  rw [hh hl, hs, Tree.height, ht]

theorem reads_plainStep {expression : Parser Subtree}
    (he : ∀ c, expression.Reads (Phrase limits .expression) c) :
    (plainStep limits expression).Reads (Phrase limits .step) c := by
  refine .look_bind ?_
  split
  next hf =>
    refine .advance_bind (by simp [hf]) (open_of_derives [] (.child (.name hf)) rfl) ?_
    intro d _
    refine .eat_bind (by decide) ?_ ?_ ?_
    · intro ho
      obtain ⟨q, hq⟩ := exists_kind .closeParen
      exact open_of_derives [q] (.emptyCall hf ho hq) rfl
    · intro e ho _
      exact reads_call hf ho he
    · intro _
      refine .bind (reads_nameTest hf) ?_ ?_
      · intro us t ht
        exact open_of_derives [] (.child ht) (by simp)
      · intro us t e _ ht
        exact reads_grow_step ht.height (.child ht) fun s hs => by simpa using hs
  next hk =>
    have hd : Derives .step [c.lookahead] (.step .child (.nodeType c.lookahead.text)) 0 :=
      .child (.nodeType hk)
    refine .advance_bind (by simp [hk]) (open_of_derives [] hd rfl) ?_
    intro d _
    exact reads_grow_step rfl hd fun s hs => hs
  next ha =>
    cases hn : Axis.ofName? c.lookahead.text with
    | none =>
      exact .unknownAxis ha (fun known => known ha hn) (by simp only [hn])
    | some axis =>
      refine .advance_bind (by simp [ha]) ?_ ?_
      · obtain ⟨x, hx⟩ := exists_kind .name
        exact open_of_derives [x] (.axis ha hn (.name hx)) rfl
      · intro d _
        simp only [hn]
        refine .bind reads_nodeTest ?_ ?_
        · intro us t ht
          exact open_of_derives [] (.axis ha hn ht) (by simp)
        · intro us t e _ ht
          exact reads_grow_step ht.height (.axis ha hn ht) fun s hs => by simpa using hs
  next =>
    obtain ⟨us, s, hs⟩ := exists_phrase limits .step
    exact .reject ⟨us, s, hs⟩ rfl

theorem reads_predicates {expression : Parser Subtree}
    (he : ∀ c, expression.Reads (Phrase limits .expression) c) {us : List Token} {s : Subtree}
    (hs : Phrase limits .step us s) :
    (predicates limits expression s).Reads (fun vs s => Phrase limits .step (us ++ vs) s) c := by
  refine .whileNext ?_ ?_ hs
  · rintro us s x b ⟨⟨m, hd⟩, -⟩ hb
    obtain ⟨vs, s', ⟨n, hd'⟩, -⟩ := exists_phrase limits .expression
    obtain ⟨q, hq⟩ := exists_kind .closeBracket
    have ho := (Option.ite_none_right_eq_some.1 hb).1
    exact open_of_derives (vs ++ [q]) (.predicate ho hq hd hd') (by simp)
  · rintro us s x b d ⟨⟨m, hd⟩, hm⟩ hb
    have ho := (Option.ite_none_right_eq_some.1 hb).1
    refine .bind (he d) ?_ ?_
    · rintro vs s' ⟨⟨n, hd'⟩, -⟩
      obtain ⟨q, hq⟩ := exists_kind .closeBracket
      exact open_of_derives [q] (.predicate ho hq hd hd') rfl
    · rintro vs s' e - ⟨⟨n, hd'⟩, hm'⟩
      refine .bind (.expect (by decide)) ?_ ?_
      · rintro ws q ⟨rfl, hq⟩
        exact open_of_derives [] (.predicate ho hq hd hd') (by simp)
      · rintro ws q g - ⟨rfl, hq⟩
        apply reads_grow
        intro j hj hh
        refine ⟨⟨max m n, ?_⟩, ?_⟩
        · simpa [hj] using Derives.predicate ho hq hd hd'
        · intro hl
          rw [hh hl, hj, hm hl, hm' hl, Tree.height]

theorem reads_step {expression : Parser Subtree}
    (he : ∀ c, expression.Reads (Phrase limits .expression) c) :
    (step limits expression).Reads (Phrase limits .step) c := by
  refine .bind (reads_plainStep he) (fun us s hs => ⟨[], s, by simpa using hs⟩) ?_
  intro us s d _ hs
  exact reads_predicates he hs

theorem reads_steps {expression : Parser Subtree}
    (he : ∀ c, expression.Reads (Phrase limits .expression) c) :
    (steps limits expression).Reads (Phrases limits .step .slash) c :=
  reads_separatedBy fun _ => reads_step he

theorem reads_relativePath {expression : Parser Subtree}
    (he : ∀ c, expression.Reads (Phrase limits .expression) c) :
    (relativePath limits expression).Reads (Phrase limits .member) c := by
  have derives {us parts} (h : Phrases limits .step .slash us parts) :
      (∃ s n, parts = [s] ∧ Derives .step us s.tree n) ∨
        (∃ n, 2 ≤ parts.length ∧ Derives .member us (.path (parts.map (·.tree))) n) := by
    obtain ⟨⟨n, hd⟩, -⟩ := h
    match parts with
    | [] => cases hd
    | [s] =>
      cases hd with
      | one hd => exact .inl ⟨s, n, rfl, hd⟩
      | more _ _ hd => cases hd
    | s :: s' :: rest =>
      exact .inr ⟨n, by simp, .path hd (by simp)⟩
  refine .bind (reads_steps he) ?_ ?_
  · intro us parts h
    rcases derives h with ⟨s, n, -, hd⟩ | ⟨n, -, hd⟩
    · exact open_of_derives [] (.lone hd) (by simp)
    · exact open_of_derives [] hd (by simp)
  · intro us parts d _ h
    rcases derives h with ⟨s, n, rfl, hd⟩ | ⟨n, hlen, hd⟩
    · exact .pure _ ⟨⟨n, by simpa using .lone hd⟩, h.2 s (by simp)⟩
    · match parts with
      | s :: s' :: rest =>
        apply reads_growOver h.2 rfl
        intro j hj hm
        exact ⟨⟨n, by simpa [hj] using hd⟩, hm⟩

theorem reads_absolutePath {expression : Parser Subtree}
    (he : ∀ c, expression.Reads (Phrase limits .expression) c) :
    (absolutePath limits expression).Reads (Phrase limits .member) c := by
  refine .bind (.expect (by decide)) ?_ ?_
  · rintro us x ⟨rfl, hx⟩
    exact open_of_derives [] (.root hx) rfl
  · rintro us x d - ⟨rfl, hx⟩
    refine .look_bind ?_
    split
    next =>
      refine .bind (reads_steps he) ?_ ?_
      · rintro us parts ⟨⟨n, hd⟩, -⟩
        exact open_of_derives [] (.absolute hx hd) (by simp)
      · rintro us parts e - ⟨⟨n, hd⟩, hparts⟩
        apply reads_growOver hparts rfl
        intro j hj hm
        exact ⟨⟨n, by simpa [hj] using .absolute hx hd⟩, hm⟩
    next =>
      apply reads_growOver (by simp) rfl
      intro j hj hm
      exact ⟨⟨0, by simpa [hj] using .root hx⟩, hm⟩

theorem reads_leaf {build : String → Tree} (hk : c.lookahead.kind ≠ .endOfInput)
    (hl : Grammar.Leaf c.lookahead (build c.lookahead.text))
    (hh : (build c.lookahead.text).height = 1) :
    (leaf build).Reads (Phrase limits .member) c := by
  refine .advance_bind hk (open_of_derives [] (.leaf hl) rfl) ?_
  intro d _
  exact .pure _ ⟨⟨0, .leaf hl⟩, fun _ => hh.symm⟩

theorem reads_member {expression : Parser Subtree}
    (he : ∀ c, expression.Reads (Phrase limits .expression) c) :
    (member limits expression).Reads (Phrase limits .member) c := by
  refine .look_bind ?_
  split
  next => exact reads_relativePath he
  next => exact reads_relativePath he
  next => exact reads_relativePath he
  next => exact reads_absolutePath he
  next hk => exact reads_leaf (by simp [hk]) (.literal hk) rfl
  next hk => exact reads_leaf (by simp [hk]) (.integer hk) rfl
  next hk => exact reads_leaf (by simp [hk]) (.decimal hk) rfl
  next hk => exact reads_leaf (by simp [hk]) (.reference hk) rfl
  next ho =>
    obtain ⟨q, hq⟩ := exists_kind .closeParen
    refine .advance_bind (by simp [ho]) ?_ ?_
    · obtain ⟨us, s, ⟨n, hd⟩, -⟩ := exists_phrase limits .expression
      exact open_of_derives (us ++ [q]) (.group ho hq hd) rfl
    · intro d _
      refine .bind (he d) ?_ ?_
      · rintro us s ⟨⟨n, hd⟩, -⟩
        exact open_of_derives [q] (.group ho hq hd) rfl
      · rintro us s e - ⟨⟨n, hd⟩, hm⟩
        refine .bind (.expect (by decide)) ?_ ?_
        · rintro vs q ⟨rfl, hq⟩
          exact open_of_derives [] (.group ho hq hd) (by simp)
        · rintro vs q g - ⟨rfl, hq⟩
          exact .pure _ ⟨⟨n, by simpa using .group ho hq hd⟩, hm⟩
  next =>
    obtain ⟨us, s, hs⟩ := exists_phrase limits .member
    exact .reject ⟨us, s, hs⟩ rfl

theorem reads_product {inside : Entry → Parser Subtree}
    (he : ∀ c, (inside .expression).Reads (Phrase limits .expression) c)
    (hp : ∀ c, (inside .product).Reads (Phrase limits (.level .multiplicative)) c) :
    (product limits inside).Reads (Phrase limits (.level .multiplicative)) c := by
  refine .bind (reads_chain (by decide) fun _ => reads_member he) ?_ ?_
  · rintro us s ⟨⟨n, hd⟩, -⟩
    exact open_of_derives [] (.single hd) (by simp)
  · rintro us s d - ⟨⟨m, hd⟩, hm⟩
    refine .look_bind ?_
    split
    next => exact .pure _ ⟨⟨m, by simpa using .single hd⟩, hm⟩
    next op hop =>
      obtain ⟨hx, hlevel⟩ := operatorAt_eq_some hop
      refine .advance_bind (by simp [hx]) ?_ ?_
      · obtain ⟨vs, s', ⟨n, hd'⟩, -⟩ := exists_phrase limits (.level .multiplicative)
        exact open_of_derives vs (.product hlevel hx hd hd') (by simp)
      · intro e _
        refine .bind (hp e) ?_ ?_
        · rintro vs s' ⟨⟨n, hd'⟩, -⟩
          exact open_of_derives [] (.product hlevel hx hd hd') (by simp)
        · rintro vs s' g - ⟨⟨n, hd'⟩, hm'⟩
          apply reads_join hm hm'
          intro j hj hmj
          exact ⟨⟨max m (n + 1), by simpa [hj] using .product hlevel hx hd hd'⟩, hmj⟩

theorem reads_ofForm {inside : Entry → Parser Subtree}
    (he : ∀ c, (inside .expression).Reads (Phrase limits .expression) c)
    (hp : ∀ c, (inside .product).Reads (Phrase limits (.level .multiplicative)) c)
    (form : Form) : ∀ c, (ofForm limits inside form).Reads (Phrase limits form) c := by
  have chained {l : Level} (hl : l ≠ .multiplicative)
      (h : ∀ c, (ofForm limits inside (Grammar.operand l)).Reads
        (Phrase limits (Grammar.operand l)) c) :
      ∀ c, (ofForm limits inside (.level l)).Reads (Phrase limits (.level l)) c := by
    rw [ofForm_level limits inside hl]
    exact fun c => reads_chain hl h
  have member c : (ofForm limits inside .member).Reads (Phrase limits .member) c := reads_member he
  have multiplicative c : (ofForm limits inside (.level .multiplicative)).Reads
      (Phrase limits (.level .multiplicative)) c := reads_product he hp
  have additive := chained (l := .additive) (by decide) multiplicative
  have relational := chained (l := .relational) (by decide) additive
  have equality := chained (l := .equality) (by decide) relational
  have and := chained (l := .and) (by decide) equality
  cases form with
  | expression => exact he
  | member => exact member
  | step => exact fun c => reads_step he
  | level l =>
    cases l with
    | or => exact chained (by decide) and
    | and => exact and
    | equality => exact equality
    | relational => exact relational
    | additive => exact additive
    | multiplicative => exact multiplicative
    | union => exact chained (by decide) member

variable (limits) in
theorem reads_entered (inner : Nat) (entry : Entry) (c : Cursor) :
    (entered limits inner entry).Reads (Phrase limits entry.form) c := by
  induction inner generalizing entry c with
  | zero => exact .tooDeep _
  | succ inner ih =>
    have reads := reads_ofForm (ih .expression) (ih .product)
    cases entry with
    | product => exact reads (.level .multiplicative) c
    | expression =>
      apply (reads (.level .or) c).mono
      rintro us s ⟨⟨n, hd⟩, hm⟩
      exact ⟨⟨n + 1, .expression hd⟩, hm⟩

variable (limits) in
theorem reads_sentence (c : Cursor) :
    (sentence limits).Reads (fun us t => ∃ n, Derives .expression us t n) c := by
  refine .bind (P := Phrase limits .expression) (reads_entered limits _ .expression c) ?_ ?_
  · rintro us s ⟨⟨n, hd⟩, -⟩
    exact ⟨[], s.tree, n, by simpa using hd⟩
  · rintro us s d - ⟨⟨n, hd⟩, -⟩
    refine .look_bind ?_
    split
    next => exact .pure _ ⟨n, by simpa using hd⟩
    next => exact .reject ⟨[], s.tree, n, by simpa using hd⟩ rfl

end Parser
end XPathSyntax
