import XPathSyntax.Proofs.Grammar.Acceptance
import XPathSyntax.Tree.Tokens

/-! Nothing is lost on the way to a tree. The tokens of a tree that has been accepted are the tokens
that were read, in their order, with every axis written out and without the parentheses that only
group. -/

namespace XPathSyntax

open Grammar (NodeTest Leaf Derives DerivesAll)

namespace Token

def Kind.looksBack : Kind → Bool
  | .openParen | .name | .nodeType => true
  | _ => false

def Kind.separates : Kind → Bool
  | .operator _ | .slash | .comma => true
  | _ => false

/-- A name behind a token of this kind begins a step, and a parenthesis groups. -/
def Opens (previous : Option Kind) : Prop :=
  previous ≠ some .name ∧ previous ≠ some .axis ∧ previous ≠ some .colon

/-- What comes next takes no notice of what stands before it. -/
def Closes (rest : List Token) : Prop :=
  ∀ x, rest.head? = some x → x.kind.looksBack = false

variable {previous : Option Kind} {calls : List Bool} {x y : Token} {ts us rest : List Token}

theorem plain_of_bare (h : x.kind.carriesText = false) : x.plain = ofKind x.kind := by
  simp [plain, ofKind, h]

theorem plain_of_carries (h : x.kind.carriesText = true) : x.plain = carrying x.kind x.text := by
  simp [plain, carrying, h]

theorem closes_nil : Closes [] := by
  intro x h
  cases h

theorem closes_cons (h : x.kind.looksBack = false) (rest : List Token) : Closes (x :: rest) := by
  intro y hy
  cases hy
  exact h

theorem Closes.ne_openParen (h : Closes rest) : rest.head?.map (·.kind) ≠ some .openParen := by
  intro hk
  obtain ⟨x, hx, hk⟩ := Option.map_eq_some_iff.1 hk
  have := h x hx
  rw [hk] at this
  cases this

theorem explicitFrom_group (hx : x.kind = .openParen) (hp : Opens previous) :
    explicitFrom previous calls (x :: rest) =
      explicitFrom (some .openParen) (false :: calls) rest := by
  have hcall : (previous == some .name) = false := beq_eq_false_iff_ne.2 hp.1
  simp [explicitFrom, hx, hcall]

theorem explicitFrom_call (hx : x.kind = .openParen) :
    explicitFrom (some .name) calls (x :: rest) =
      x.plain :: explicitFrom (some .openParen) (true :: calls) rest := by
  simp [explicitFrom, hx]

theorem explicitFrom_endGroup (hx : x.kind = .closeParen) :
    explicitFrom previous (false :: calls) (x :: rest) =
      explicitFrom (some .closeParen) calls rest := by
  simp [explicitFrom, hx]

theorem explicitFrom_endCall (hx : x.kind = .closeParen) :
    explicitFrom previous (true :: calls) (x :: rest) =
      x.plain :: explicitFrom (some .closeParen) calls rest := by
  simp [explicitFrom, hx]

/-- Tokens that are not parentheses stay, and some of them get an axis. -/
theorem explicitFrom_cons (ho : x.kind ≠ .openParen) (hc : x.kind ≠ .closeParen) :
    explicitFrom previous calls (x :: rest) =
      (if lacksAxis previous x rest.head? then [carrying .axis Axis.child.name] else []) ++
        x.plain :: explicitFrom (some x.kind) calls rest := by
  obtain ⟨kind, value, line⟩ := x
  cases kind with
  | openParen => exact absurd rfl ho
  | closeParen => exact absurd rfl hc
  | _ =>
    simp only [explicitFrom]
    split <;> rfl

theorem explicitFrom_mark (hx : x.kind.looksBack = false) (hc : x.kind ≠ .closeParen) :
    explicitFrom previous calls (x :: rest) =
      x.plain :: explicitFrom (some x.kind) calls rest := by
  have ho : x.kind ≠ .openParen := by
    intro h
    rw [h] at hx
    cases hx
  have hlacks : lacksAxis previous x rest.head? = false := by
    unfold lacksAxis
    split
    next h => rw [h] at hx; cases hx
    next h => rw [h] at hx; cases hx
    next => rfl
  rw [explicitFrom_cons ho hc, hlacks]
  rfl

theorem explicitFrom_of_closes (h : Closes rest) :
    explicitFrom previous calls rest = explicitFrom none calls rest := by
  cases rest with
  | nil => rfl
  | cons x rest =>
    have hx := h x rfl
    by_cases hc : x.kind = .closeParen
    · cases calls with
      | nil => simp [explicitFrom, hc]
      | cons call calls =>
        cases call with
        | false => rw [explicitFrom_endGroup hc, explicitFrom_endGroup hc]
        | true => rw [explicitFrom_endCall hc, explicitFrom_endCall hc]
    · rw [explicitFrom_mark hx hc, explicitFrom_mark hx hc]

/-- The explicit form of the tokens `ts` is `us`, wherever an expression can stand. -/
def Explicit (ts us : List Token) : Prop :=
  ∀ previous calls rest, Opens previous → Closes rest →
    explicitFrom previous calls (ts ++ rest) = us ++ explicitFrom none calls rest

/-- A mark between two expressions stays. -/
theorem Explicit.mark {mark : Kind} {ts' us' : List Token} (h : Explicit ts us)
    (hx : x.kind = mark) (hmark : mark.separates = true) (h' : Explicit ts' us') :
    Explicit (ts ++ x :: ts') (us ++ ofKind mark :: us') := by
  obtain ⟨hback, hparen, hopens, hbare⟩ : mark.looksBack = false ∧ mark ≠ .closeParen ∧
      Opens (some mark) ∧ mark.carriesText = false := by
    cases mark <;> simp_all [Kind.separates, Kind.looksBack, Opens, Kind.carriesText]
  subst hx
  intro previous calls rest hp hrest
  rw [List.append_assoc, List.cons_append, h _ _ _ hp (closes_cons hback _),
    explicitFrom_mark hback hparen, h' _ _ _ hopens hrest, plain_of_bare hbare,
    List.append_assoc, List.cons_append]

end Token

open Token (Explicit Opens Closes explicitFrom closes_cons lacksAxis)

namespace Grammar

variable {previous : Option Token.Kind} {calls : List Bool} {x : Token} {ts rest : List Token}
  {t : Tree}

theorem Leaf.explicit (h : Leaf x t) : Explicit [x] t.tokens := by
  intro previous calls rest hp hrest
  cases h with
  | literal hx | integer hx | decimal hx | reference hx =>
    rw [List.singleton_append, Token.explicitFrom_mark (by rw [hx]; rfl) (by simp [hx]),
      Token.explicitFrom_of_closes hrest, Token.plain_of_carries (by rw [hx]; rfl), hx]
    rfl

/-- Behind a colon a name stays as it is. -/
theorem explicitFrom_colon {c x : Token} (hc : c.kind = .colon) (hx : x.kind = .name)
    (hrest : Closes rest) :
    explicitFrom previous calls (c :: x :: rest) =
      .ofKind .colon :: .carrying .name x.text :: explicitFrom none calls rest := by
  rw [Token.explicitFrom_mark (by rw [hc]; rfl) (by simp [hc]),
    Token.explicitFrom_cons (by simp [hx]) (by simp [hx]), Token.explicitFrom_of_closes hrest,
    Token.plain_of_bare (by rw [hc]; rfl), Token.plain_of_carries (by rw [hx]; rfl)]
  simp [lacksAxis, hc, hx]

/-- Behind an axis a test stays as it is. -/
theorem NodeTest.explicitFrom_axis (h : NodeTest ts t) (hrest : Closes rest) :
    explicitFrom (some .axis) calls (ts ++ rest) = t.tokens ++ explicitFrom none calls rest := by
  cases h with
  | name hx | nodeType hx =>
    rw [List.singleton_append, Token.explicitFrom_cons (by simp [hx]) (by simp [hx]),
      Token.explicitFrom_of_closes hrest, Token.plain_of_carries (by rw [hx]; rfl)]
    simp [lacksAxis, hx, Tree.tokens, Tree.tokensWith]
  | qualified hq hc hx =>
    rw [List.cons_append, Token.explicitFrom_cons (by simp [hq]) (by simp [hq]),
      List.cons_append, List.singleton_append, explicitFrom_colon hc hx hrest,
      Token.plain_of_carries (by rw [hq]; rfl)]
    simp [lacksAxis, hq, Tree.tokens, Tree.tokensWith]

/-- Elsewhere it gets its axis, in front of all its names. -/
theorem NodeTest.explicitFrom_child (h : NodeTest ts t) (hp : Opens previous)
    (hrest : Closes rest) :
    explicitFrom previous calls (ts ++ rest) =
      .carrying .axis Axis.child.name :: (t.tokens ++ explicitFrom none calls rest) := by
  have hnext := hrest.ne_openParen
  cases h with
  | name hx | nodeType hx =>
    rw [List.singleton_append, Token.explicitFrom_cons (by simp [hx]) (by simp [hx]),
      Token.explicitFrom_of_closes hrest, Token.plain_of_carries (by rw [hx]; rfl)]
    simp [lacksAxis, hx, Tree.tokens, Tree.tokensWith, hp.2.1, hp.2.2, hnext]
  | qualified hq hc hx =>
    rw [List.cons_append, Token.explicitFrom_cons (by simp [hq]) (by simp [hq]),
      List.cons_append, List.singleton_append, explicitFrom_colon hc hx hrest,
      Token.plain_of_carries (by rw [hq]; rfl)]
    simp [lacksAxis, hq, hc, Tree.tokens, Tree.tokensWith, hp.2.1, hp.2.2]

/-- All tokens of a call stay. -/
theorem explicitFrom_call {f o c : Token} {us vs : List Token} (hf : f.kind = .name)
    (ho : o.kind = .openParen) (hc : c.kind = .closeParen) (hrest : Closes rest)
    (h : ∀ more, Closes more → explicitFrom (some .openParen) (true :: calls) (us ++ more) =
      vs ++ explicitFrom none (true :: calls) more) :
    explicitFrom previous calls (f :: o :: (us ++ c :: rest)) =
      .carrying .name f.text :: .ofKind .openParen ::
        (vs ++ .ofKind .closeParen :: explicitFrom none calls rest) := by
  have hlacks : lacksAxis previous f (some o) = false := by simp [lacksAxis, hf, ho]
  rw [Token.explicitFrom_cons (by simp [hf]) (by simp [hf]), List.head?_cons, hlacks, hf,
    Token.explicitFrom_call ho, h _ (closes_cons (by rw [hc]; rfl) rest),
    Token.explicitFrom_endCall hc, Token.explicitFrom_of_closes hrest,
    Token.plain_of_carries (by rw [hf]; rfl), Token.plain_of_bare (by rw [ho]; rfl),
    Token.plain_of_bare (by rw [hc]; rfl), hf, ho, hc]
  rfl

theorem tokensBetween_cons {mark : Token.Kind} {trees : List Tree} (h : trees ≠ []) (t : Tree) :
    Tree.tokensBetween id mark (t :: trees) =
      t.tokens ++ .ofKind mark :: Tree.tokensBetween id mark trees := by
  cases trees with
  | nil => exact absurd rfl h
  | cons => rfl

mutual

theorem Derives.explicit {form ts t n} : Derives form ts t n → Explicit ts t.tokens
  | .expression h | .single h | .lone h => h.explicit
  | .chain _ _ ho h h' | .product _ ho h h' => h.explicit.mark ho rfl h'.explicit
  | .leaf h => h.explicit
  | .group ho hc h => by
    intro previous calls rest hp hrest
    rw [List.cons_append, List.append_assoc, List.singleton_append,
      Token.explicitFrom_group ho hp,
      h.explicit _ _ _ (by simp [Opens]) (closes_cons (by rw [hc]; rfl) _),
      Token.explicitFrom_endGroup hc, Token.explicitFrom_of_closes hrest]
  | .path h _ => h.explicit rfl
  | .root hs => by
    intro previous calls rest hp hrest
    rw [List.singleton_append, Token.explicitFrom_mark (by rw [hs]; rfl) (by simp [hs]),
      Token.explicitFrom_of_closes hrest, Token.plain_of_bare (by rw [hs]; rfl), hs]
    rfl
  | .absolute hs h => by
    intro previous calls rest hp hrest
    rw [List.cons_append, Token.explicitFrom_mark (by rw [hs]; rfl) (by simp [hs]),
      h.explicit rfl _ _ _ (by simp [hs, Opens]) hrest,
      Token.plain_of_bare (by rw [hs]; rfl), hs]
    rfl
  | .emptyCall hf ho hc => by
    intro previous calls rest hp hrest
    have nothing : ∀ more, Closes more →
        explicitFrom (some .openParen) (true :: calls) ([] ++ more) =
          [] ++ explicitFrom none (true :: calls) more :=
      fun _ => Token.explicitFrom_of_closes
    exact explicitFrom_call hf ho hc hrest nothing
  | .call hf ho hc h => by
    intro previous calls rest hp hrest
    have harguments := h.explicit rfl
    rw [List.cons_append, List.cons_append, List.append_assoc, List.singleton_append,
      explicitFrom_call hf ho hc hrest fun more hmore =>
        harguments _ _ more (by simp [Opens]) hmore]
    simp [Tree.tokens, Tree.tokensWith]
  | .child h => fun _ _ _ hp hrest => h.explicitFrom_child hp hrest
  | .axis ha hname h => by
    intro previous calls rest hp hrest
    rw [List.cons_append, Token.explicitFrom_mark (by rw [ha]; rfl) (by simp [ha]), ha,
      h.explicitFrom_axis hrest, Token.plain_of_carries (by rw [ha]; rfl), ha,
      ← Axis.ofName?_eq_some_iff.1 hname]
    rfl
  | .predicate ho hc h h' => by
    intro previous calls rest hp hrest
    rw [List.append_assoc, List.cons_append, List.append_assoc, List.singleton_append,
      h.explicit _ _ _ hp (closes_cons (by rw [ho]; rfl) _),
      Token.explicitFrom_mark (by rw [ho]; rfl) (by simp [ho]),
      h'.explicit _ _ _ (by simp [ho, Opens]) (closes_cons (by rw [hc]; rfl) _),
      Token.explicitFrom_mark (by rw [hc]; rfl) (by simp [hc]), Token.explicitFrom_of_closes hrest,
      Token.plain_of_bare (by rw [ho]; rfl), Token.plain_of_bare (by rw [hc]; rfl), ho, hc]
    simp [Tree.tokens, Tree.tokensWith]

theorem DerivesAll.explicit {form mark ts trees n} :
    DerivesAll form mark ts trees n → mark.separates = true →
      Explicit ts (Tree.tokensBetween id mark trees)
  | .one h, _ => by
    simpa [Tree.tokensBetween, Tree.tokensBehind, Tree.tokens] using h.explicit
  | .more hk h h', hmark => by
    rw [tokensBetween_cons h'.trees_ne_nil]
    exact h.explicit.mark hk hmark (h'.explicit hmark)

end

end Grammar

/-- A tree keeps the tokens of its expression, each of them once and in their order. -/
theorem tokens_conserved (limits : Limits) {ts : List Token} {t : Tree}
    (hts : ∀ x ∈ ts, x.kind ≠ .endOfInput)
    (h : parseSource limits (ts.map .token) = .ok (some t)) : t.tokens = Token.explicit ts := by
  obtain ⟨n, hd, -⟩ := (parseSource_eq_ok_iff hts).1 h
  have := hd.explicit none [] [] (by simp [Opens]) Token.closes_nil
  simpa [Token.explicit, explicitFrom] using this.symm

/-- Calls, groups and names with and without an axis: `(f((a), b:c[(1)]) | self::text())`. -/
theorem tokens_conserved_of_group :
    let ts : List Token := [.ofKind .openParen, .carrying .name "f", .ofKind .openParen,
      .ofKind .openParen, .carrying .name "a", .ofKind .closeParen, .ofKind .comma,
      .carrying .name "b", .ofKind .colon, .carrying .name "c", .ofKind .openBracket,
      .ofKind .openParen, .carrying .integer "1", .ofKind .closeParen, .ofKind .closeBracket,
      .ofKind .closeParen, .ofKind (.operator .union), .carrying .axis "self",
      .carrying .nodeType "text", .ofKind .closeParen]
    let t : Tree := .binary .union
      (.call "f" [.step .child (.nameTest none "a"),
        .predicate (.step .child (.nameTest (some "b") "c")) (.integer "1")])
      (.step .self (.nodeType "text"))
    (∀ x ∈ ts, x.kind ≠ .endOfInput) ∧ parseSource ⟨9, 9⟩ (ts.map .token) = .ok (some t) ∧
      t.tokens = Token.explicit ts :=
  ⟨by decide, by decide +kernel, tokens_conserved ⟨9, 9⟩ (by decide) (by decide +kernel)⟩

end XPathSyntax
