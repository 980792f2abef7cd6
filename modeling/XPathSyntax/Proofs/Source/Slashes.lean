import XPathSyntax.Proofs.Grammar.AxisTokens
import XPathSyntax.Proofs.Lexeme.Slash
import XPathSyntax.Proofs.Source.Contents
import XPathSyntax.Proofs.Source.Division

/-! Two slashes in the place of one. A second slash behind a lexeme that is a slash makes it the
lexeme of two slashes and leaves all others as they are. It spells a slash and an axis, so the text
is parsed as before where the step behind it can follow an axis, and not at all elsewhere. -/

namespace XPathSyntax

def Lexeme.oneSlash : Lexeme :=
  bare ['/'] .slash

def Lexeme.twoSlashes : Lexeme :=
  ⟨['/', '/'], [(.slash, none), axisToken .descendantOrSelf]⟩

open Grammar (Derives)
open Lexeme (axisToken bare carrying oneSlash twoSlashes)
open Source (Yields)
open Token (beginsTest content)

namespace Division

variable {afterOperand : Bool} {chars : List Char} {found : List (Token.Kind × Option String)}
  {d d' behind : Division}

def contents : Division → List (Token.Kind × Option String)
  | ending _ _ _ => []
  | lexeme _ l behind => l.tokens ++ behind.contents

def fault? : Division → Option LexicalFault
  | ending _ _ fault => fault
  | lexeme _ _ behind => behind.fault?

/-- Some lexeme of the one division, a single slash in front of `behind`, is two slashes in the
other. -/
inductive DoublesSlash (behind : Division) : Division → Division → Prop where
  | here {blanks : List Char} :
      DoublesSlash behind (.lexeme blanks oneSlash behind) (.lexeme blanks twoSlashes behind)
  | later {blanks : List Char} {l : Lexeme} {d d' : Division} : DoublesSlash behind d d' →
      DoublesSlash behind (.lexeme blanks l d) (.lexeme blanks l d')

theorem Complete.yields (h : d.Complete afterOperand) (hfault : d.fault? = none) :
    Yields afterOperand d.text d.contents := by
  induction h with
  | ending hblanks hhalts =>
    cases hfault
    cases hhalts
    rw [text, List.append_nil]
    exact .blank hblanks
  | lexeme hblanks hl _ ih => exact .lexeme hblanks hl (ih hfault)

theorem exists_of_yields (h : Yields afterOperand chars found) :
    ∃ d : Division, d.Divides afterOperand chars ∧ d.contents = found ∧ d.fault? = none := by
  induction h with
  | @blank _ blanks hblanks =>
    exact ⟨.ending blanks [] none, ⟨List.append_nil _, .ending hblanks .atEnd⟩, rfl, rfl⟩
  | @lexeme _ blanks l _ _ hblanks hl _ ih =>
    obtain ⟨d, ⟨rfl, hd⟩, rfl, hfault⟩ := ih
    exact ⟨.lexeme blanks l d, ⟨rfl, .lexeme hblanks hl hd⟩, rfl, hfault⟩

/-- What a text yields are the contents of the only division it has. -/
theorem Divides.contents_eq (h : d.Divides afterOperand chars)
    (hyields : Yields afterOperand chars found) : d.contents = found ∧ d.fault? = none := by
  obtain ⟨e, he, hcontents, hfault⟩ := exists_of_yields hyields
  rw [h.unique he]
  exact ⟨hcontents, hfault⟩

namespace DoublesSlash

theorem text_eq (h : DoublesSlash behind d d') : ∃ before,
    d.text = before ++ '/' :: behind.text ∧ d'.text = before ++ '/' :: '/' :: behind.text := by
  induction h with
  | @here blanks => exact ⟨blanks, rfl, rfl⟩
  | @later blanks l _ _ _ ih =>
    obtain ⟨before, hd, hd'⟩ := ih
    exact ⟨blanks ++ (l.text ++ before), by simp [text, hd], by simp [text, hd']⟩

theorem contents_eq (h : DoublesSlash behind d d') : ∃ before,
    d.contents = before ++ (.slash, none) :: behind.contents ∧
      d'.contents = before ++ (.slash, none) :: axisToken .descendantOrSelf :: behind.contents := by
  induction h with
  | here => exact ⟨[], rfl, rfl⟩
  | @later blanks l _ _ _ ih =>
    obtain ⟨before, hd, hd'⟩ := ih
    exact ⟨l.tokens ++ before, by simp [contents, hd], by simp [contents, hd']⟩

theorem fault?_eq (h : DoublesSlash behind d d') : d'.fault? = d.fault? := by
  induction h with
  | here => rfl
  | later _ ih => exact ih

/-- All other lexemes stand as they did. -/
theorem complete (h : DoublesSlash behind d d') (hd : d.Complete afterOperand) :
    d'.Complete afterOperand := by
  induction h generalizing afterOperand with
  | here =>
    cases hd with
    | lexeme hblanks _ hbehind => exact .lexeme hblanks .slashes hbehind
  | later h ih =>
    cases hd with
    | lexeme hblanks hl hrest =>
      obtain ⟨before, htext, htext'⟩ := h.text_eq
      rw [htext] at hl
      refine .lexeme hblanks ?_ (ih hrest)
      rw [htext']
      exact hl.before_slash _

end DoublesSlash
end Division

open Division (Divides DoublesSlash)

variable {limits : Limits} {text text' : String} {t : Tree} {d d' behind : Division}

/-- Which tokens a text that is parsed has, by its lexemes. -/
theorem tokens_of_parse (hd : d.Divides false text.toList)
    (h : parse limits text = .ok (some t)) : d.fault? = none ∧
      ∃ ts n, ts.map content = d.contents ∧ Derives .expression ts t n ∧ n ≤ limits.nesting ∧
        t.charge ≤ limits.height := by
  obtain ⟨ts, n, hyields, hderives, hn, hh⟩ := parse_eq_some_iff.1 h
  obtain ⟨hcontents, hfault⟩ := hd.contents_eq hyields
  exact ⟨hfault, ts, n, hcontents.symm, hderives, hn, hh⟩

/-- The tokens on both sides of a token, by their contents. -/
theorem split_of_content {ts : List Token} {x : Token.Kind × Option String}
    {before after : List (Token.Kind × Option String)}
    (h : ts.map content = before ++ x :: after) :
    ∃ us s vs, ts = us ++ s :: vs ∧ us.map content = before ∧ s.content = x ∧
      vs.map content = after := by
  obtain ⟨us, ws, rfl, hus, hws⟩ := List.map_eq_append_iff.1 h
  obtain ⟨s, vs, rfl, hs, hvs⟩ := List.map_eq_cons_iff.1 hws
  exact ⟨us, s, vs, rfl, hus, hs, hvs⟩

theorem map_kind_of_content {ts : List Token} {contents : List (Token.Kind × Option String)}
    (h : ts.map content = contents) : ts.map (·.kind) = contents.map (·.1) := by
  rw [← h, List.map_map]
  rfl

/-- No text is parsed in which something else than a node test comes behind an axis. -/
theorem error_of_axis {axis : Axis} {before more : List (Token.Kind × Option String)}
    (hd : d.Divides false text.toList) (hcontents : d.contents = before ++ axisToken axis :: more)
    (hmore : beginsTest (more.map (·.1)) = false) (limits : Limits) :
    ∃ error, parse limits text = .error error := by
  cases hparse : parse limits text with
  | error error => exact ⟨error, rfl⟩
  | ok result =>
    exfalso
    cases result with
    | none =>
      have hblank := List.all_eq_true.1 (parse_eq_none_iff.1 hparse)
      have hnil := (hd.contents_eq (.blank hblank)).1
      rw [hcontents] at hnil
      simp at hnil
    | some t =>
      obtain ⟨-, ts, n, hts, hderives, -⟩ := tokens_of_parse hd hparse
      obtain ⟨us, a, vs, rfl, -, ha, hvs⟩ := split_of_content (hts.trans hcontents)
      have hbegins := hderives.axesTested.behind (congrArg Prod.fst ha)
      rw [map_kind_of_content hvs, hmore] at hbegins
      cases hbegins

/-- A text stays one that is parsed, within the same limits, if two slashes take the place of one in
front of a node test: a name, a qualified name, `*` or a node type, all without an axis. In front of
anything else, such as an axis that is written out or abbreviated by `@`, `.` or `..`, and the name
of a function that is called, two slashes are an error under all limits. -/
theorem slashes_in_place_of_slash (hd : d.Divides false text.toList)
    (hdoubles : DoublesSlash behind d d') (htext : d'.text = text'.toList)
    (h : parse limits text = .ok (some t)) :
    (beginsTest (behind.contents.map (·.1)) = true → ∃ u, parse limits text' = .ok (some u)) ∧
    (beginsTest (behind.contents.map (·.1)) = false →
      ∀ limits', ∃ error, parse limits' text' = .error error) := by
  have hd' : d'.Divides false text'.toList := ⟨htext, hdoubles.complete hd.complete⟩
  obtain ⟨hfault, ts, n, hts, hderives, hn, hh⟩ := tokens_of_parse hd h
  obtain ⟨before, hcontents, hcontents'⟩ := hdoubles.contents_eq
  constructor
  · intro hbegins
    let a := Token.carrying .axis Axis.descendantOrSelf.name
    obtain ⟨us, s, vs, rfl, rfl, hs, hvs⟩ := split_of_content (hts.trans hcontents)
    rw [← map_kind_of_content hvs] at hbegins
    obtain ⟨u, hu, hcharge⟩ := hderives.writeAxis (a := a) (congrArg Prod.fst hs) hbegins rfl
      (Axis.ofName?_name .descendantOrSelf)
    have hyields := hd'.complete.yields (hdoubles.fault?_eq.trans hfault)
    have hcontents : (us ++ s :: a :: vs).map content = d'.contents := by
      rw [hcontents', List.map_append, List.map_cons, List.map_cons, hs, hvs]
      rfl
    rw [htext, ← hcontents] at hyields
    exact ⟨u, parse_eq_some_iff.2 ⟨_, n, hyields, hu, hn, hcharge.charge ▸ hh⟩⟩
  · intro hbegins limits'
    have hcontents : d'.contents =
        (before ++ [(.slash, none)]) ++ axisToken .descendantOrSelf :: behind.contents := by
      rw [hcontents', List.append_assoc]
      rfl
    exact error_of_axis hd' hcontents hbegins limits'

theorem slashes_in_place_of_slash_before_nodeType :
    let a := carrying ['a'] .name ['a']
    let test := carrying "text()".toList .nodeType "text".toList
    let behind : Division := .lexeme [] test (.ending [] [] none)
    let d : Division := .lexeme [] a (.lexeme [] oneSlash behind)
    let d' : Division := .lexeme [] a (.lexeme [] twoSlashes behind)
    let t : Tree := .path [.step .child (.nameTest none "a"), .step .child (.nodeType "text")]
    d.Divides false "a/text()".toList ∧ DoublesSlash behind d d' ∧ d'.text = "a//text()".toList ∧
      parse ⟨1, 3⟩ "a/text()" = .ok (some t) ∧ ∃ u, parse ⟨1, 3⟩ "a//text()" = .ok (some u) := by
  intro a test behind d d' t
  have first : Lexeme.read false 'a' "/text()".toList = .ok (a, "/text()".toList) := by rfl
  have second : Lexeme.read true '/' "text()".toList = .ok (oneSlash, "text()".toList) := by rfl
  have third : Lexeme.read false 't' "ext()".toList = .ok (test, []) := by rfl
  have divides : d.Divides false "a/text()".toList :=
    ⟨by decide, .lexeme (List.forall_mem_nil _) (Lexeme.stands_of_read first)
      (.lexeme (List.forall_mem_nil _) (Lexeme.stands_of_read second)
        (.lexeme (List.forall_mem_nil _) (Lexeme.stands_of_read third)
          (.ending (List.forall_mem_nil _) .atEnd)))⟩
  have doubles : DoublesSlash behind d d' := .later .here
  have htext : d'.text = "a//text()".toList := by decide
  have hparse : parse ⟨1, 3⟩ "a/text()" = .ok (some t) := by decide +kernel
  exact ⟨divides, doubles, htext, hparse,
    (slashes_in_place_of_slash divides doubles htext hparse).1 (by decide)⟩

/-- In `a/@b` two slashes cannot take the place of the one. -/
theorem no_slashes_before_attribute :
    let a := carrying ['a'] .name ['a']
    let mark : Lexeme := ⟨['@'], [axisToken .attributes]⟩
    let b := carrying ['b'] .name ['b']
    let behind : Division := .lexeme [] mark (.lexeme [] b (.ending [] [] none))
    let d : Division := .lexeme [] a (.lexeme [] oneSlash behind)
    let d' : Division := .lexeme [] a (.lexeme [] twoSlashes behind)
    let t : Tree :=
      .path [.step .child (.nameTest none "a"), .step .attributes (.nameTest none "b")]
    d.Divides false "a/@b".toList ∧ DoublesSlash behind d d' ∧ d'.text = "a//@b".toList ∧
      parse ⟨1, 3⟩ "a/@b" = .ok (some t) ∧
      ∀ limits, ∃ error, parse limits "a//@b" = .error error := by
  intro a mark b behind d d' t
  have first : Lexeme.read false 'a' "/@b".toList = .ok (a, "/@b".toList) := by rfl
  have second : Lexeme.read true '/' "@b".toList = .ok (oneSlash, "@b".toList) := by rfl
  have third : Lexeme.read false '@' "b".toList = .ok (mark, "b".toList) := by rfl
  have fourth : Lexeme.read false 'b' [] = .ok (b, []) := by rfl
  have divides : d.Divides false "a/@b".toList :=
    ⟨by decide, .lexeme (List.forall_mem_nil _) (Lexeme.stands_of_read first)
      (.lexeme (List.forall_mem_nil _) (Lexeme.stands_of_read second)
        (.lexeme (List.forall_mem_nil _) (Lexeme.stands_of_read third)
          (.lexeme (List.forall_mem_nil _) (Lexeme.stands_of_read fourth)
            (.ending (List.forall_mem_nil _) .atEnd))))⟩
  have doubles : DoublesSlash behind d d' := .later .here
  have divides' : d'.Divides false "a//@b".toList := ⟨by decide, doubles.complete divides.complete⟩
  have hcontents : d'.contents = [(.name, some "a"), (.slash, none)] ++
      axisToken .descendantOrSelf :: behind.contents := by rfl
  exact ⟨divides, doubles, by decide, by decide +kernel,
    error_of_axis divides' hcontents (by decide)⟩

end XPathSyntax
