import XPathSyntax.Grammar

/-! Lines play no part in a derivation: tokens of the same kinds with the same texts derive the same
trees, with the same need of nesting. -/

namespace XPathSyntax

/-- Everything but the line. -/
def Token.content (t : Token) : Token.Kind × Option String :=
  (t.kind, t.value)

namespace Token

variable {x y : Token} {ts us vs : List Token}

theorem kind_eq (h : y.content = x.content) : y.kind = x.kind :=
  congrArg Prod.fst h

theorem text_eq (h : y.content = x.content) : y.text = x.text := by
  have value : y.value = x.value := congrArg Prod.snd h
  rw [text, text, value]

theorem cons_of_content (h : us.map content = (x :: ts).map content) :
    ∃ y vs, us = y :: vs ∧ y.content = x.content ∧ vs.map content = ts.map content :=
  List.map_eq_cons_iff.1 h

theorem append_of_content (h : us.map content = (ts ++ vs).map content) :
    ∃ ts' vs', us = ts' ++ vs' ∧ ts'.map content = ts.map content ∧
      vs'.map content = vs.map content := by
  rw [List.map_append] at h
  exact List.map_eq_append_iff.1 h

theorem singleton_of_content (h : us.map content = [x].map content) :
    ∃ y, us = [y] ∧ y.content = x.content := by
  obtain ⟨y, vs, rfl, hy, hvs⟩ := cons_of_content h
  obtain rfl := List.map_eq_nil_iff.1 hvs
  exact ⟨y, rfl, hy⟩

end Token

namespace Grammar

open Token (kind_eq text_eq cons_of_content append_of_content singleton_of_content)

variable {ts us : List Token} {x y : Token} {t : Tree}

theorem NodeTest.of_content (h : NodeTest ts t)
    (hus : us.map Token.content = ts.map Token.content) : NodeTest us t := by
  cases h with
  | name hx =>
    obtain ⟨x', rfl, hx'⟩ := singleton_of_content hus
    rw [← text_eq hx']
    exact .name ((kind_eq hx').trans hx)
  | qualified hq hc hx =>
    obtain ⟨q', vs, rfl, hq', hvs⟩ := cons_of_content hus
    obtain ⟨c', ws, rfl, hc', hws⟩ := cons_of_content hvs
    obtain ⟨x', rfl, hx'⟩ := singleton_of_content hws
    rw [← text_eq hq', ← text_eq hx']
    exact .qualified ((kind_eq hq').trans hq) ((kind_eq hc').trans hc) ((kind_eq hx').trans hx)
  | nodeType hx =>
    obtain ⟨x', rfl, hx'⟩ := singleton_of_content hus
    rw [← text_eq hx']
    exact .nodeType ((kind_eq hx').trans hx)

theorem Leaf.of_content (h : Leaf x t) (hy : y.content = x.content) : Leaf y t := by
  have kind := kind_eq hy
  cases h with
  | literal hx => rw [← text_eq hy]; exact .literal (kind.trans hx)
  | integer hx => rw [← text_eq hy]; exact .integer (kind.trans hx)
  | decimal hx => rw [← text_eq hy]; exact .decimal (kind.trans hx)
  | reference hx => rw [← text_eq hy]; exact .reference (kind.trans hx)

mutual

theorem Derives.of_content {form ts t n us} :
    Derives form ts t n → us.map Token.content = ts.map Token.content → Derives form us t n
  | .expression h, hus => .expression (h.of_content hus)
  | .single h, hus => .single (h.of_content hus)
  | .chain hl hop ho h h', hus => by
    obtain ⟨vs, ws, rfl, hvs, hws⟩ := append_of_content hus
    obtain ⟨o', ws, rfl, ho', hws⟩ := cons_of_content hws
    exact .chain hl hop ((kind_eq ho').trans ho) (h.of_content hvs) (h'.of_content hws)
  | .product hop ho h h', hus => by
    obtain ⟨vs, ws, rfl, hvs, hws⟩ := append_of_content hus
    obtain ⟨o', ws, rfl, ho', hws⟩ := cons_of_content hws
    exact .product hop ((kind_eq ho').trans ho) (h.of_content hvs) (h'.of_content hws)
  | .leaf h, hus => by
    obtain ⟨x', rfl, hx'⟩ := singleton_of_content hus
    exact .leaf (h.of_content hx')
  | .group ho hc h, hus => by
    obtain ⟨o', vs, rfl, ho', hvs⟩ := cons_of_content hus
    obtain ⟨ws, cs, rfl, hws, hcs⟩ := append_of_content hvs
    obtain ⟨c', rfl, hc'⟩ := singleton_of_content hcs
    exact .group ((kind_eq ho').trans ho) ((kind_eq hc').trans hc) (h.of_content hws)
  | .lone h, hus => .lone (h.of_content hus)
  | .path h hlen, hus => .path (h.of_content hus) hlen
  | .root hs, hus => by
    obtain ⟨s', rfl, hs'⟩ := singleton_of_content hus
    exact .root ((kind_eq hs').trans hs)
  | .absolute hs h, hus => by
    obtain ⟨s', vs, rfl, hs', hvs⟩ := cons_of_content hus
    exact .absolute ((kind_eq hs').trans hs) (h.of_content hvs)
  | .emptyCall hf ho hc, hus => by
    obtain ⟨f', vs, rfl, hf', hvs⟩ := cons_of_content hus
    obtain ⟨o', ws, rfl, ho', hws⟩ := cons_of_content hvs
    obtain ⟨c', rfl, hc'⟩ := singleton_of_content hws
    rw [← text_eq hf']
    exact .emptyCall ((kind_eq hf').trans hf) ((kind_eq ho').trans ho) ((kind_eq hc').trans hc)
  | .call hf ho hc h, hus => by
    obtain ⟨f', vs, rfl, hf', hvs⟩ := cons_of_content hus
    obtain ⟨o', ws, rfl, ho', hws⟩ := cons_of_content hvs
    obtain ⟨as, cs, rfl, has, hcs⟩ := append_of_content hws
    obtain ⟨c', rfl, hc'⟩ := singleton_of_content hcs
    rw [← text_eq hf']
    exact .call ((kind_eq hf').trans hf) ((kind_eq ho').trans ho) ((kind_eq hc').trans hc)
      (h.of_content has)
  | .child h, hus => .child (h.of_content hus)
  | .axis ha hname h, hus => by
    obtain ⟨a', vs, rfl, ha', hvs⟩ := cons_of_content hus
    exact .axis ((kind_eq ha').trans ha) (by rw [text_eq ha', hname]) (h.of_content hvs)
  | .predicate ho hc h h', hus => by
    obtain ⟨vs, ws, rfl, hvs, hws⟩ := append_of_content hus
    obtain ⟨o', ws, rfl, ho', hws⟩ := cons_of_content hws
    obtain ⟨fs, cs, rfl, hfs, hcs⟩ := append_of_content hws
    obtain ⟨c', rfl, hc'⟩ := singleton_of_content hcs
    exact .predicate ((kind_eq ho').trans ho) ((kind_eq hc').trans hc) (h.of_content hvs)
      (h'.of_content hfs)

theorem DerivesAll.of_content {form mark ts trees n us} :
    DerivesAll form mark ts trees n → us.map Token.content = ts.map Token.content →
      DerivesAll form mark us trees n
  | .one h, hus => .one (h.of_content hus)
  | .more hk h h', hus => by
    obtain ⟨vs, ws, rfl, hvs, hws⟩ := append_of_content hus
    obtain ⟨k', ws, rfl, hk', hws⟩ := cons_of_content hws
    exact .more ((kind_eq hk').trans hk) (h.of_content hvs) (h'.of_content hws)

end

end Grammar
end XPathSyntax
