import Mathlib.Data.List.Forall2
import XPathSyntax.Proofs.Grammar.ChildAxis

/-! Axes among the tokens of an expression. Behind an axis a node test comes next, which is neither
another axis nor the name of a function that is called. Where one axis can stand any other can: the
tokens derive a tree of the same height and need the same nesting. -/

namespace XPathSyntax

namespace Token

/-- Whether tokens of these kinds begin with a node test. A name that is called is none. -/
def beginsTest : List Kind → Bool
  | .nodeType :: _ => true
  | .name :: kinds => kinds.head? != some .openParen
  | _ => false

def AxesTested : List Token → Prop
  | [] => True
  | x :: ts => (x.kind = .axis → beginsTest (ts.map (·.kind)) = true) ∧ AxesTested ts

/-- The same token, or one known axis in the place of another. -/
inductive Reaxes : Token → Token → Prop where
  | same (x : Token) : Reaxes x x
  | axis {a b : Token} {axis : Axis} : a.kind = .axis → b.kind = .axis →
      Axis.ofName? b.text = some axis → Reaxes a b

variable {k x y : Token} {ts us vs : List Token}

theorem beginsTest_append (hk : k.kind ≠ .openParen) (us : List Token)
    (h : beginsTest (ts.map (·.kind)) = true) :
    beginsTest ((ts ++ k :: us).map (·.kind)) = true := by
  cases ts with
  | nil => cases h
  | cons x ts =>
    rw [List.map_cons] at h
    rw [List.cons_append, List.map_cons]
    cases hx : x.kind <;> rw [hx] at h <;> try cases h
    · cases ts with
      | nil => simpa [beginsTest] using hk
      | cons => exact h
    · rfl

namespace AxesTested

theorem cons (h : AxesTested ts) (hx : x.kind ≠ .axis) : AxesTested (x :: ts) :=
  ⟨fun ha => absurd ha hx, h⟩

theorem append (h : AxesTested ts) (hk : k.kind ≠ .openParen) (h' : AxesTested (k :: us)) :
    AxesTested (ts ++ k :: us) := by
  induction ts with
  | nil => exact h'
  | cons x ts ih => exact ⟨fun ha => beginsTest_append hk us (h.1 ha), ih h.2⟩

theorem behind (h : AxesTested (ts ++ x :: us)) (hx : x.kind = .axis) :
    beginsTest (us.map (·.kind)) = true := by
  induction ts with
  | nil => exact h.1 hx
  | cons t ts ih => exact ih h.2

end AxesTested

namespace Reaxes

theorem kind_eq (h : Reaxes x y) : y.kind = x.kind := by
  cases h with
  | same => rfl
  | axis ha hb => rw [ha, hb]

/-- Only axes are replaced. -/
theorem eq_of_ne (h : Reaxes x y) (hx : x.kind ≠ .axis) : y = x := by
  cases h with
  | same => rfl
  | axis ha => exact absurd ha hx

theorem eq_of_forall_ne (h : List.Forall₂ Reaxes ts us) (hts : ∀ x ∈ ts, x.kind ≠ .axis) :
    us = ts := by
  induction h with
  | nil => rfl
  | cons hx _ ih =>
    rw [List.forall_mem_cons] at hts
    rw [hx.eq_of_ne hts.1, ih hts.2]

theorem cons_inv (h : List.Forall₂ Reaxes (x :: ts) us) :
    ∃ y vs, us = y :: vs ∧ Reaxes x y ∧ List.Forall₂ Reaxes ts vs := by
  cases h with
  | cons hx h => exact ⟨_, _, rfl, hx, h⟩

theorem append_inv (h : List.Forall₂ Reaxes (ts ++ x :: us) vs) :
    ∃ ts' y us', vs = ts' ++ y :: us' ∧ List.Forall₂ Reaxes ts ts' ∧ Reaxes x y ∧
      List.Forall₂ Reaxes us us' := by
  induction ts generalizing vs with
  | nil =>
    obtain ⟨y, us', rfl, hx, hus⟩ := cons_inv h
    exact ⟨[], y, us', rfl, .nil, hx, hus⟩
  | cons t ts ih =>
    obtain ⟨u, vs, rfl, ht, h⟩ := cons_inv h
    obtain ⟨ts', y, us', rfl, hts, hx, hus⟩ := ih h
    exact ⟨u :: ts', y, us', rfl, .cons ht hts, hx, hus⟩

end Reaxes
end Token

/-- The limit of height is charged with the same for both trees, and for trees that have them in the
same places. -/
structure Tree.SameCharge (t u : Tree) : Prop where
  height : u.height = t.height
  charge : u.charge = t.charge

namespace Tree.SameCharge

variable {t u t' u' : Tree} {ts us : List Tree}

theorem refl (t : Tree) : t.SameCharge t :=
  ⟨rfl, rfl⟩

/-- Of all but operands of one token the height is charged. -/
theorem of_height (ht : t.charge = min t.height Count.top) (hu : u.charge = min u.height Count.top)
    (h : u.height = t.height) : t.SameCharge u :=
  ⟨h, by rw [hu, h, ht]⟩

theorem binary (op : Operator) (h : t.SameCharge u) (h' : t'.SameCharge u') :
    (Tree.binary op t t').SameCharge (.binary op u u') :=
  of_height rfl rfl (by rw [Tree.height, Tree.height, h.height, h'.height])

theorem predicate (h : t.SameCharge u) (h' : t'.SameCharge u') :
    (Tree.predicate t t').SameCharge (.predicate u u') :=
  of_height rfl rfl (by rw [Tree.height, Tree.height, h.height, h'.height])

theorem path (h : tallest us = tallest ts) : (Tree.path ts).SameCharge (.path us) :=
  of_height rfl rfl (by rw [Tree.height, Tree.height, h])

theorem absolutePath (h : tallest us = tallest ts) :
    (Tree.absolutePath ts).SameCharge (.absolutePath us) :=
  of_height rfl rfl (by rw [Tree.height, Tree.height, h])

theorem call (name : String) (h : tallest us = tallest ts) :
    (Tree.call name ts).SameCharge (.call name us) :=
  of_height rfl rfl (by rw [Tree.height, Tree.height, h])

end Tree.SameCharge

namespace Grammar

open Token (AxesTested Reaxes beginsTest)

variable {ts us : List Token} {x : Token} {t : Tree}

theorem NodeTest.beginsTest (h : NodeTest ts t) : beginsTest (ts.map (·.kind)) = true := by
  cases h with
  | name hx | nodeType hx => simp [Token.beginsTest, hx]
  | qualified hq hc => simp [Token.beginsTest, hq, hc]

theorem NodeTest.kind_ne_axis (h : NodeTest ts t) : ∀ x ∈ ts, x.kind ≠ .axis := by
  cases h with
  | name hx | nodeType hx => simp [hx]
  | qualified hq hc hx => simp [hq, hc, hx]

theorem axesTested_of_ne (h : ∀ x ∈ ts, x.kind ≠ .axis) : AxesTested ts := by
  induction ts with
  | nil => trivial
  | cons x ts ih =>
    rw [List.forall_mem_cons] at h
    exact (ih h.2).cons h.1

theorem Leaf.kind_ne_axis (h : Leaf x t) : x.kind ≠ .axis :=
  Token.WritesChild.mark_ne_axis h.beginsStep

mutual

theorem Derives.axesTested {form ts t n} : Derives form ts t n → AxesTested ts
  | .expression h | .single h | .lone h => h.axesTested
  | .chain _ _ ho h h' | .product _ ho h h' =>
    h.axesTested.append (by simp [ho]) (h'.axesTested.cons (by simp [ho]))
  | .leaf h => axesTested_of_ne (by simpa using h.kind_ne_axis)
  | .group ho hc h =>
    (h.axesTested.append (by simp [hc]) (axesTested_of_ne (by simp [hc]))).cons (by simp [ho])
  | .path h _ => h.axesTested (by decide)
  | .root hs => axesTested_of_ne (by simp [hs])
  | .absolute hs h => (h.axesTested (by decide)).cons (by simp [hs])
  | .emptyCall hf ho hc => axesTested_of_ne (by simp [hf, ho, hc])
  | .call hf ho hc h =>
    (((h.axesTested (by decide)).append (by simp [hc]) (axesTested_of_ne (by simp [hc]))).cons
      (by simp [ho])).cons (by simp [hf])
  | .child h => axesTested_of_ne h.kind_ne_axis
  | .axis _ _ h => ⟨fun _ => h.beginsTest, axesTested_of_ne h.kind_ne_axis⟩
  | .predicate ho hc h h' =>
    h.axesTested.append (by simp [ho]) ((h'.axesTested.append (by simp [hc])
      (axesTested_of_ne (by simp [hc]))).cons (by simp [ho]))

theorem DerivesAll.axesTested {form mark ts trees n} :
    DerivesAll form mark ts trees n → mark ≠ .axis ∧ mark ≠ .openParen → AxesTested ts
  | .one h, _ => h.axesTested
  | .more hk h h', hmark =>
    h.axesTested.append (hk ▸ hmark.2) ((h'.axesTested hmark).cons (hk ▸ hmark.1))

end

mutual

/-- With other axes in the place of some of its axes an expression stays one. -/
theorem Derives.reaxis {form ts t n us} : Derives form ts t n → List.Forall₂ Reaxes ts us →
    ∃ u, Derives form us u n ∧ t.SameCharge u
  | .expression h, hus => by
    obtain ⟨u, hu, hc⟩ := h.reaxis hus
    exact ⟨u, .expression hu, hc⟩
  | .single h, hus => by
    obtain ⟨u, hu, hc⟩ := h.reaxis hus
    exact ⟨u, .single hu, hc⟩
  | .chain hl hop ho h h', hus => by
    obtain ⟨vs, o', ws, rfl, hvs, ho', hws⟩ := Reaxes.append_inv hus
    obtain ⟨u, hu, hc⟩ := h.reaxis hvs
    obtain ⟨v, hv, hc'⟩ := h'.reaxis hws
    exact ⟨_, .chain hl hop (ho'.kind_eq.trans ho) hu hv, hc.binary _ hc'⟩
  | .product hop ho h h', hus => by
    obtain ⟨vs, o', ws, rfl, hvs, ho', hws⟩ := Reaxes.append_inv hus
    obtain ⟨u, hu, hc⟩ := h.reaxis hvs
    obtain ⟨v, hv, hc'⟩ := h'.reaxis hws
    exact ⟨_, .product hop (ho'.kind_eq.trans ho) hu hv, hc.binary _ hc'⟩
  | .leaf h, hus => by
    rw [Reaxes.eq_of_forall_ne hus (by simpa using h.kind_ne_axis)]
    exact ⟨_, .leaf h, .refl _⟩
  | .group ho hc h, hus => by
    obtain ⟨o', vs, rfl, ho', hvs⟩ := Reaxes.cons_inv hus
    obtain ⟨ws, c', cs, rfl, hws, hc', hcs⟩ := Reaxes.append_inv hvs
    cases hcs
    obtain ⟨u, hu, hcharge⟩ := h.reaxis hws
    exact ⟨u, .group (ho'.kind_eq.trans ho) (hc'.kind_eq.trans hc) hu, hcharge⟩
  | .lone h, hus => by
    obtain ⟨u, hu, hc⟩ := h.reaxis hus
    exact ⟨u, .lone hu, hc⟩
  | .path h hlen, hus => by
    obtain ⟨others, hothers, hlength, hc⟩ := h.reaxis hus
    exact ⟨_, .path hothers (hlength ▸ hlen), .path hc⟩
  | .root hs, hus => by
    rw [Reaxes.eq_of_forall_ne hus (by simp [hs])]
    exact ⟨_, .root hs, .refl _⟩
  | .absolute hs h, hus => by
    obtain ⟨s', vs, rfl, hs', hvs⟩ := Reaxes.cons_inv hus
    obtain ⟨others, hothers, -, hc⟩ := h.reaxis hvs
    exact ⟨_, .absolute (hs'.kind_eq.trans hs) hothers, .absolutePath hc⟩
  | .emptyCall hf ho hc, hus => by
    rw [Reaxes.eq_of_forall_ne hus (by simp [hf, ho, hc])]
    exact ⟨_, .emptyCall hf ho hc, .refl _⟩
  | .call hf ho hc h, hus => by
    obtain ⟨f', vs, rfl, hf', hvs⟩ := Reaxes.cons_inv hus
    obtain ⟨o', ws, rfl, ho', hws⟩ := Reaxes.cons_inv hvs
    obtain ⟨as, c', cs, rfl, has, hc', hcs⟩ := Reaxes.append_inv hws
    cases hcs
    obtain ⟨others, hothers, -, hcharge⟩ := h.reaxis has
    rw [hf'.eq_of_ne (by simp [hf])]
    exact ⟨_, .call hf (ho'.kind_eq.trans ho) (hc'.kind_eq.trans hc) hothers, .call _ hcharge⟩
  | .child h, hus => by
    rw [Reaxes.eq_of_forall_ne hus h.kind_ne_axis]
    exact ⟨_, .child h, .refl _⟩
  | .axis ha hname h, hus => by
    obtain ⟨a', vs, rfl, ha', hvs⟩ := Reaxes.cons_inv hus
    rw [Reaxes.eq_of_forall_ne hvs h.kind_ne_axis]
    cases ha' with
    | same => exact ⟨_, .axis ha hname h, .refl _⟩
    | axis _ ha' hname' => exact ⟨_, .axis ha' hname' h, .of_height rfl rfl rfl⟩
  | .predicate ho hc h h', hus => by
    obtain ⟨vs, o', ws, rfl, hvs, ho', hws⟩ := Reaxes.append_inv hus
    obtain ⟨fs, c', cs, rfl, hfs, hc', hcs⟩ := Reaxes.append_inv hws
    cases hcs
    obtain ⟨u, hu, hcharge⟩ := h.reaxis hvs
    obtain ⟨v, hv, hcharge'⟩ := h'.reaxis hfs
    exact ⟨_, .predicate (ho'.kind_eq.trans ho) (hc'.kind_eq.trans hc) hu hv,
      hcharge.predicate hcharge'⟩

theorem DerivesAll.reaxis {form mark ts trees n us} :
    DerivesAll form mark ts trees n → List.Forall₂ Reaxes ts us →
      ∃ others, DerivesAll form mark us others n ∧ others.length = trees.length ∧
        Tree.tallest others = Tree.tallest trees
  | .one h, hus => by
    obtain ⟨u, hu, hc⟩ := h.reaxis hus
    exact ⟨[u], .one hu, rfl, by rw [Tree.tallest, Tree.tallest, hc.height]; rfl⟩
  | .more hk h h', hus => by
    obtain ⟨vs, k', ws, rfl, hvs, hk', hws⟩ := Reaxes.append_inv hus
    obtain ⟨u, hu, hc⟩ := h.reaxis hvs
    obtain ⟨others, hothers, hlen, htallest⟩ := h'.reaxis hws
    exact ⟨u :: others, .more (hk'.kind_eq.trans hk) hu hothers, by simp [hlen],
      by rw [Tree.tallest, Tree.tallest, hc.height, htallest]⟩

end

end Grammar

open Grammar (Derives)
open Token (Reaxes WritesChild beginsTest carrying lacksAxis)

variable {ts us : List Token} {a s x : Token} {t : Tree}

namespace Token.WritesChild

theorem refl (next : Option Token) (previous : Option Kind) (ts : List Token) :
    WritesChild next previous ts ts := by
  induction ts generalizing previous with
  | nil => exact .nil
  | cons t ts ih => exact .keep (ih _)

/-- What is written behind some tokens is written behind more of them. -/
theorem behind {next : Option Token} {previous : Option Kind} (before : List Token)
    (h : ∀ previous, WritesChild next previous ts us) :
    WritesChild next previous (before ++ ts) (before ++ us) := by
  induction before generalizing previous with
  | nil => exact h previous
  | cons t before ih => exact .keep ih

end Token.WritesChild

/-- A node test behind a slash has no axis. -/
theorem Token.lacksAxis_of_beginsTest (h : beginsTest ((x :: ts).map (·.kind)) = true) :
    lacksAxis (some .slash) x ts.head? = true := by
  unfold lacksAxis
  rw [List.map_cons] at h
  cases hx : x.kind <;> rw [hx] at h <;> try cases h
  · simpa [beginsTest] using h
  · rfl

/-- Any axis may be written behind a slash, in front of a node test. -/
theorem Grammar.Derives.writeAxis {form : Form} {n : Nat} {axis : Axis}
    (h : Derives form (us ++ s :: ts) t n) (hs : s.kind = .slash)
    (hts : beginsTest (ts.map (·.kind)) = true) (ha : a.kind = .axis)
    (hname : Axis.ofName? a.text = some axis) :
    ∃ u, Derives form (us ++ s :: a :: ts) u n ∧ t.SameCharge u := by
  let child := carrying .axis Axis.child.name
  have writes : WritesChild none none (us ++ s :: ts) (us ++ s :: child :: ts) := by
    refine WritesChild.behind us fun _ => .keep ?_
    cases ts with
    | nil => cases hts
    | cons x ts =>
      rw [hs]
      refine .write ?_ rfl rfl (.refl _ _ _)
      rw [Option.or_none]
      exact Token.lacksAxis_of_beginsTest hts
  have same (ts : List Token) : List.Forall₂ Reaxes ts ts :=
    List.forall₂_same.2 fun x _ => .same x
  have reaxes : List.Forall₂ Reaxes (us ++ s :: child :: ts) (us ++ s :: a :: ts) :=
    List.rel_append (same us) (.cons (.same s) (.cons (.axis rfl ha hname) (same ts)))
  exact (h.writeChild writes).reaxis reaxes

end XPathSyntax
