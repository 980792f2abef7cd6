import XPathSyntax.Proofs.Grammar.Acceptance
import XPathSyntax.Tree.Tokens

/-! Writing the axis `child` out. In front of a step that has no axis the axis `child` may be
written or left out: with it and without it the tokens derive the same trees and need the same
nesting. A derivation divides its tokens at marks, for which no axis is ever written, so the tokens
with the axes and those without them divide at the same marks. -/

namespace XPathSyntax

open Grammar (NodeTest Derives DerivesAll)

namespace Token

/-- The axis `child` is written out in front of some of the steps that have none. `previous` is the
kind of the token before the first one, and `next` is the token behind the last one. -/
inductive WritesChild (next : Option Token) : Option Kind → List Token → List Token → Prop where
  | nil {previous} : WritesChild next previous [] []
  | keep {previous t ts us} : WritesChild next (some t.kind) ts us →
      WritesChild next previous (t :: ts) (t :: us)
  | write {previous a t ts us} : lacksAxis previous t (ts.head?.or next) = true →
      a.kind = .axis → a.text = Axis.child.name → WritesChild next (some t.kind) ts us →
      WritesChild next previous (t :: ts) (a :: t :: us)

theorem beginsStep_of_lacksAxis {previous : Option Kind} {x : Token} {next : Option Token}
    (h : lacksAxis previous x next = true) : x.kind.beginsStep = true := by
  unfold lacksAxis at h
  split at h
  next hk => rw [hk]; rfl
  next hk => rw [hk]; rfl
  next => cases h

namespace WritesChild

variable {next : Option Token} {previous : Option Kind} {ts us vs : List Token} {a f k x : Token}
  {t : Tree}

theorem eq_nil (h : WritesChild next previous [] us) : us = [] := by
  cases h
  rfl

theorem eq_nil_left (h : WritesChild next previous ts []) : ts = [] := by
  cases h
  rfl

/-- Where no axis is missing, none is written. -/
theorem cons_inv (h : WritesChild next previous (x :: ts) us)
    (hx : lacksAxis previous x (ts.head?.or next) = false) :
    ∃ vs, us = x :: vs ∧ WritesChild next (some x.kind) ts vs := by
  cases h with
  | keep h => exact ⟨_, rfl, h⟩
  | write hlacks =>
    rw [hx] at hlacks
    cases hlacks

/-- What is not an axis has not been written. -/
theorem cons_inv_left (h : WritesChild next previous ts (x :: us)) (hx : x.kind ≠ .axis) :
    ∃ vs, ts = x :: vs ∧ WritesChild next (some x.kind) vs us := by
  cases h with
  | keep h => exact ⟨_, rfl, h⟩
  | write _ ha => exact absurd ha hx

theorem lacksAxis_of_mark (previous : Option Kind) (hk : k.kind.beginsStep = false)
    (next : Option Token) : lacksAxis previous k next = false := by
  rw [Bool.eq_false_iff]
  intro h
  rw [beginsStep_of_lacksAxis h] at hk
  cases hk

theorem mark_ne_axis (hk : k.kind.beginsStep = false) : k.kind ≠ .axis := by
  intro h
  rw [h] at hk
  cases hk

theorem mark_inv (h : WritesChild next previous (k :: ts) us) (hk : k.kind.beginsStep = false) :
    ∃ vs, us = k :: vs ∧ WritesChild next (some k.kind) ts vs :=
  h.cons_inv (lacksAxis_of_mark _ hk _)

/-- What stands before a mark and what stands behind it. -/
theorem append_inv (h : WritesChild next previous (ts ++ k :: us) vs)
    (hk : k.kind.beginsStep = false) :
    ∃ ts' us', vs = ts' ++ k :: us' ∧ WritesChild (some k) previous ts ts' ∧
      WritesChild next (some k.kind) us us' := by
  induction ts generalizing previous vs with
  | nil =>
    obtain ⟨us', rfl, hus⟩ := h.mark_inv hk
    exact ⟨[], us', rfl, .nil, hus⟩
  | cons t ts ih =>
    cases h with
    | keep h =>
      obtain ⟨ts', us', rfl, hts, hus⟩ := ih h
      exact ⟨t :: ts', us', rfl, .keep hts, hus⟩
    | write hlacks ha htext h =>
      obtain ⟨ts', us', rfl, hts, hus⟩ := ih h
      refine ⟨_ :: t :: ts', us', rfl, .write ?_ ha htext hts, hus⟩
      cases ts <;> exact hlacks

theorem append_inv_left (h : WritesChild next previous vs (ts ++ k :: us))
    (hk : k.kind.beginsStep = false) :
    ∃ ts' us', vs = ts' ++ k :: us' ∧ WritesChild (some k) previous ts' ts ∧
      WritesChild next (some k.kind) us' us := by
  generalize hws : ts ++ k :: us = ws at h
  induction h generalizing ts with
  | nil => cases ts <;> cases hws
  | @keep previous t vs ws h ih =>
    cases ts with
    | nil =>
      cases hws
      exact ⟨[], vs, rfl, .nil, h⟩
    | cons u ts =>
      cases hws
      obtain ⟨ts', us', rfl, hts, hus⟩ := ih rfl
      exact ⟨t :: ts', us', rfl, .keep hts, hus⟩
  | @write previous a t vs ws hlacks ha htext h ih =>
    -- neither the axis nor the token that it is written for is the mark
    rcases ts with _ | ⟨u, _ | ⟨u', ts⟩⟩
    · cases hws
      exact absurd ha (mark_ne_axis hk)
    · cases hws
      rw [beginsStep_of_lacksAxis hlacks] at hk
      cases hk
    · cases hws
      obtain ⟨ts', us', rfl, hts, hus⟩ := ih rfl
      refine ⟨t :: ts', us', rfl, .write ?_ ha htext hts, hus⟩
      cases ts' <;> exact hlacks

/-- A name that is called does not begin a step with an axis. -/
theorem call_inv (h : WritesChild next previous (f :: k :: ts) us) (hf : f.kind = .name)
    (hk : k.kind = .openParen) :
    ∃ vs, us = f :: k :: vs ∧ WritesChild next (some .openParen) ts vs := by
  obtain ⟨vs, rfl, hvs⟩ := h.cons_inv (by simp [lacksAxis, hf, hk])
  obtain ⟨ws, rfl, hws⟩ := hvs.mark_inv (by rw [hk]; rfl)
  rw [hk] at hws
  exact ⟨ws, rfl, hws⟩

theorem call_inv_left (h : WritesChild next previous ts (f :: k :: us)) (hf : f.kind = .name)
    (hk : k.kind = .openParen) :
    ∃ vs, ts = f :: k :: vs ∧ WritesChild next (some .openParen) vs us := by
  obtain ⟨vs, rfl, hvs⟩ := h.cons_inv_left (by simp [hf])
  obtain ⟨ws, rfl, hws⟩ := hvs.cons_inv_left (by simp [hk])
  rw [hk] at hws
  exact ⟨ws, rfl, hws⟩

/-- A node test gets an axis in front of all its names, or stays as it is. -/
theorem nodeTest_inv (h : WritesChild next previous ts us) (hts : NodeTest ts t) :
    us = ts ∨ previous ≠ some .axis ∧
      ∃ a, us = a :: ts ∧ a.kind = .axis ∧ a.text = Axis.child.name := by
  -- behind the first token of a test no axis is missing
  have rest {x ts us} (hts : NodeTest (x :: ts) t) (h : WritesChild next (some x.kind) ts us) :
      us = ts := by
    cases hts with
    | name | nodeType => exact h.eq_nil
    | qualified hq hc hx =>
      obtain ⟨vs, rfl, hvs⟩ := h.cons_inv (by simp [lacksAxis, hc])
      obtain ⟨ws, rfl, hws⟩ := hvs.cons_inv (by simp [lacksAxis, hx, hc])
      rw [hws.eq_nil]
  cases h with
  | nil => cases hts
  | keep h =>
    rw [rest hts h]
    exact .inl rfl
  | write hlacks ha htext h =>
    rw [rest hts h]
    refine .inr ⟨?_, _, rfl, ha, htext⟩
    rintro rfl
    unfold lacksAxis at hlacks
    split at hlacks <;> cases hlacks

theorem nodeTest_inv_left (h : WritesChild next previous ts us) (hus : NodeTest us t) :
    ts = us := by
  cases hus with
  | name hx | nodeType hx =>
    obtain ⟨vs, rfl, hvs⟩ := h.cons_inv_left (by simp [hx])
    rw [hvs.eq_nil_left]
  | qualified hq hc hx =>
    obtain ⟨vs, rfl, hvs⟩ := h.cons_inv_left (by simp [hq])
    obtain ⟨ws, rfl, hws⟩ := hvs.cons_inv_left (by simp [hc])
    obtain ⟨ys, rfl, hys⟩ := hws.cons_inv_left (by simp [hx])
    rw [hys.eq_nil_left]

theorem singleton_inv (h : WritesChild next previous [k] us) (hk : k.kind.beginsStep = false) :
    us = [k] := by
  obtain ⟨vs, rfl, hvs⟩ := h.mark_inv hk
  rw [hvs.eq_nil]

theorem singleton_inv_left (h : WritesChild next previous ts [k])
    (hk : k.kind.beginsStep = false) : ts = [k] := by
  obtain ⟨vs, rfl, hvs⟩ := h.cons_inv_left (mark_ne_axis hk)
  rw [hvs.eq_nil_left]

end WritesChild
end Token

namespace Grammar

open Token (WritesChild)

theorem Leaf.beginsStep {x : Token} {t : Tree} (h : Leaf x t) : x.kind.beginsStep = false := by
  cases h with
  | literal hx | integer hx | decimal hx | reference hx => rw [hx]; rfl

mutual

/-- With some of the missing axes written out the tokens derive the same tree. -/
theorem Derives.writeChild {form ts t n next previous us} :
    Derives form ts t n → WritesChild next previous ts us → Derives form us t n
  | .expression h, hus => .expression (h.writeChild hus)
  | .single h, hus => .single (h.writeChild hus)
  | .chain hl hop ho h h', hus => by
    obtain ⟨vs, ws, rfl, hvs, hws⟩ := hus.append_inv (by rw [ho]; rfl)
    exact .chain hl hop ho (h.writeChild hvs) (h'.writeChild hws)
  | .product hop ho h h', hus => by
    obtain ⟨vs, ws, rfl, hvs, hws⟩ := hus.append_inv (by rw [ho]; rfl)
    exact .product hop ho (h.writeChild hvs) (h'.writeChild hws)
  | .leaf h, hus => by
    rw [hus.singleton_inv h.beginsStep]
    exact .leaf h
  | .group ho hc h, hus => by
    obtain ⟨vs, rfl, hvs⟩ := hus.mark_inv (by rw [ho]; rfl)
    obtain ⟨ws, cs, rfl, hws, hcs⟩ := hvs.append_inv (by rw [hc]; rfl)
    rw [hcs.eq_nil]
    exact .group ho hc (h.writeChild hws)
  | .lone h, hus => .lone (h.writeChild hus)
  | .path h hlen, hus => .path (h.writeChild rfl hus) hlen
  | .root hs, hus => by
    rw [hus.singleton_inv (by rw [hs]; rfl)]
    exact .root hs
  | .absolute hs h, hus => by
    obtain ⟨vs, rfl, hvs⟩ := hus.mark_inv (by rw [hs]; rfl)
    exact .absolute hs (h.writeChild rfl hvs)
  | .emptyCall hf ho hc, hus => by
    obtain ⟨vs, rfl, hvs⟩ := hus.call_inv hf ho
    rw [hvs.singleton_inv (by rw [hc]; rfl)]
    exact .emptyCall hf ho hc
  | .call hf ho hc h, hus => by
    obtain ⟨vs, rfl, hvs⟩ := hus.call_inv hf ho
    obtain ⟨ws, cs, rfl, hws, hcs⟩ := hvs.append_inv (by rw [hc]; rfl)
    rw [hcs.eq_nil]
    exact .call hf ho hc (h.writeChild rfl hws)
  | .child h, hus => by
    rcases hus.nodeTest_inv h with rfl | ⟨-, a, rfl, ha, htext⟩
    · exact .child h
    · exact .axis ha (by rw [htext, Axis.ofName?_name]) h
  | .axis ha hname h, hus => by
    obtain ⟨vs, rfl, hvs⟩ := hus.cons_inv (by simp [Token.lacksAxis, ha])
    rcases hvs.nodeTest_inv h with rfl | ⟨hprevious, -⟩
    · exact .axis ha hname h
    · exact absurd (congrArg some ha) hprevious
  | .predicate ho hc h h', hus => by
    obtain ⟨vs, ws, rfl, hvs, hws⟩ := hus.append_inv (by rw [ho]; rfl)
    obtain ⟨fs, cs, rfl, hfs, hcs⟩ := hws.append_inv (by rw [hc]; rfl)
    rw [hcs.eq_nil]
    exact .predicate ho hc (h.writeChild hvs) (h'.writeChild hfs)

theorem DerivesAll.writeChild {form mark ts trees n next previous us} :
    DerivesAll form mark ts trees n → mark.beginsStep = false →
      WritesChild next previous ts us → DerivesAll form mark us trees n
  | .one h, _, hus => .one (h.writeChild hus)
  | .more hk h h', hmark, hus => by
    obtain ⟨vs, ws, rfl, hvs, hws⟩ := hus.append_inv (by rw [hk]; exact hmark)
    exact .more hk (h.writeChild hvs) (h'.writeChild hmark hws)

end

mutual

/-- And without them. -/
theorem Derives.omitChild {form us t n next previous ts} :
    Derives form us t n → WritesChild next previous ts us → Derives form ts t n
  | .expression h, hts => .expression (h.omitChild hts)
  | .single h, hts => .single (h.omitChild hts)
  | .chain hl hop ho h h', hts => by
    obtain ⟨vs, ws, rfl, hvs, hws⟩ := hts.append_inv_left (by rw [ho]; rfl)
    exact .chain hl hop ho (h.omitChild hvs) (h'.omitChild hws)
  | .product hop ho h h', hts => by
    obtain ⟨vs, ws, rfl, hvs, hws⟩ := hts.append_inv_left (by rw [ho]; rfl)
    exact .product hop ho (h.omitChild hvs) (h'.omitChild hws)
  | .leaf h, hts => by
    rw [hts.singleton_inv_left h.beginsStep]
    exact .leaf h
  | .group ho hc h, hts => by
    obtain ⟨vs, rfl, hvs⟩ := hts.cons_inv_left (by simp [ho])
    obtain ⟨ws, cs, rfl, hws, hcs⟩ := hvs.append_inv_left (by rw [hc]; rfl)
    rw [hcs.eq_nil_left]
    exact .group ho hc (h.omitChild hws)
  | .lone h, hts => .lone (h.omitChild hts)
  | .path h hlen, hts => .path (h.omitChild rfl hts) hlen
  | .root hs, hts => by
    rw [hts.singleton_inv_left (by rw [hs]; rfl)]
    exact .root hs
  | .absolute hs h, hts => by
    obtain ⟨vs, rfl, hvs⟩ := hts.cons_inv_left (by simp [hs])
    exact .absolute hs (h.omitChild rfl hvs)
  | .emptyCall hf ho hc, hts => by
    obtain ⟨vs, rfl, hvs⟩ := hts.call_inv_left hf ho
    rw [hvs.singleton_inv_left (by rw [hc]; rfl)]
    exact .emptyCall hf ho hc
  | .call hf ho hc h, hts => by
    obtain ⟨vs, rfl, hvs⟩ := hts.call_inv_left hf ho
    obtain ⟨ws, cs, rfl, hws, hcs⟩ := hvs.append_inv_left (by rw [hc]; rfl)
    rw [hcs.eq_nil_left]
    exact .call hf ho hc (h.omitChild rfl hws)
  | .child h, hts => by
    rw [hts.nodeTest_inv_left h]
    exact .child h
  | .axis ha hname h, hts => by
    cases hts with
    | keep hts =>
      rw [hts.nodeTest_inv_left h]
      exact .axis ha hname h
    | write _ _ htext hts =>
      rw [htext, Axis.ofName?_name] at hname
      cases hname
      have kept := @WritesChild.keep _ none _ _ _ hts
      rw [kept.nodeTest_inv_left h]
      exact .child h
  | .predicate ho hc h h', hts => by
    obtain ⟨vs, ws, rfl, hvs, hws⟩ := hts.append_inv_left (by rw [ho]; rfl)
    obtain ⟨fs, cs, rfl, hfs, hcs⟩ := hws.append_inv_left (by rw [hc]; rfl)
    rw [hcs.eq_nil_left]
    exact .predicate ho hc (h.omitChild hvs) (h'.omitChild hfs)

theorem DerivesAll.omitChild {form mark us trees n next previous ts} :
    DerivesAll form mark us trees n → mark.beginsStep = false →
      WritesChild next previous ts us → DerivesAll form mark ts trees n
  | .one h, _, hts => .one (h.omitChild hts)
  | .more hk h h', hmark, hts => by
    obtain ⟨vs, ws, rfl, hvs, hws⟩ := hts.append_inv_left (by rw [hk]; exact hmark)
    exact .more hk (h.omitChild hvs) (h'.omitChild hmark hws)

end

end Grammar

open Token (WritesChild)

variable {next : Option Token} {previous : Option Token.Kind} {ts us : List Token}

theorem Grammar.derives_iff_of_writesChild (h : WritesChild next previous ts us) {form : Form}
    {t : Tree} {n : Nat} : Derives form ts t n ↔ Derives form us t n :=
  ⟨fun hd => hd.writeChild h, fun hd => hd.omitChild h⟩

theorem Token.WritesChild.kind_ne_endOfInput (h : WritesChild next previous ts us)
    (hts : ∀ x ∈ ts, x.kind ≠ .endOfInput) : ∀ x ∈ us, x.kind ≠ .endOfInput := by
  induction h with
  | nil => exact hts
  | keep _ ih =>
    rw [List.forall_mem_cons] at hts ⊢
    exact ⟨hts.1, ih hts.2⟩
  | write _ ha _ _ ih =>
    rw [List.forall_mem_cons] at hts
    rw [List.forall_mem_cons, List.forall_mem_cons]
    exact ⟨by simp [ha], hts.1, ih hts.2⟩

/-- Under all limits the tokens are accepted with the missing axes, or with some of them, if and
only if they are accepted without, and the tree is the same. -/
theorem child_axis_changes_nothing (limits : Limits) (h : WritesChild none none ts us)
    (hts : ∀ x ∈ ts, x.kind ≠ .endOfInput) (result : Option Tree) :
    parseSource limits (ts.map .token) = .ok result ↔
      parseSource limits (us.map .token) = .ok result := by
  have hus := h.kind_ne_endOfInput hts
  cases result with
  | none =>
    rw [parseSource_eq_none_iff hts, parseSource_eq_none_iff hus]
    constructor
    · rintro rfl
      exact h.eq_nil
    · rintro rfl
      exact h.eq_nil_left
  | some t =>
    simp only [parseSource_eq_ok_iff hts, parseSource_eq_ok_iff hus,
      Grammar.derives_iff_of_writesChild h]

/-- Two of the three axes that `a[text()]/b:c` lacks are written out. It is accepted as it was, and
a limit that was too low by one still is. -/
theorem child_axis_changes_nothing_in_path :
    let axis : Token := ⟨.axis, some "child", none⟩
    let a : Token := ⟨.name, some "a", some 1⟩
    let opened : Token := ⟨.openBracket, none, some 1⟩
    let text : Token := ⟨.nodeType, some "text", some 1⟩
    let closed : Token := ⟨.closeBracket, none, some 1⟩
    let slash : Token := ⟨.slash, none, some 1⟩
    let b : Token := ⟨.name, some "b", some 1⟩
    let colon : Token := ⟨.colon, none, some 1⟩
    let c : Token := ⟨.name, some "c", some 1⟩
    let ts := [a, opened, text, closed, slash, b, colon, c]
    let us := [a, opened, axis, text, closed, slash, axis, b, colon, c]
    let t : Tree := .path [.predicate (.step .child (.nameTest none "a"))
      (.step .child (.nodeType "text")), .step .child (.nameTest (some "b") "c")]
    WritesChild none none ts us ∧ (∀ x ∈ ts, x.kind ≠ .endOfInput) ∧
      parseSource ⟨2, 4⟩ (us.map .token) = .ok (some t) ∧
      parseSource ⟨2, 3⟩ (us.map .token) ≠ .ok (some t) := by
  intro axis a opened text closed slash b colon c ts us t
  have h : WritesChild none none ts us :=
    .keep (.keep (.write rfl rfl rfl (.keep (.keep (.write rfl rfl rfl (.keep (.keep .nil)))))))
  have hts : ∀ x ∈ ts, x.kind ≠ .endOfInput := by decide
  refine ⟨h, hts, ?_, ?_⟩
  · exact (child_axis_changes_nothing ⟨2, 4⟩ h hts (some t)).1 (by decide +kernel)
  · rw [Ne, ← child_axis_changes_nothing ⟨2, 3⟩ h hts (some t)]
    decide +kernel

end XPathSyntax
