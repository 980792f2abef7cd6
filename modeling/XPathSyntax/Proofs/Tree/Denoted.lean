import XPathSyntax.Proofs.Grammar.Acceptance
import XPathSyntax.Proofs.Grammar.WellFormed
import XPathSyntax.Proofs.Source.Legible
import XPathSyntax.Proofs.Source.Spelled
import XPathSyntax.Proofs.Tree.Grouped

/-! The trees that texts denote are the well-formed ones. What a text denotes is derived from its
legible tokens; and for every well-formed tree there is a text, the spelling of its tokens with
parentheses, which denotes it under all limits that are wide enough for the tree. -/

namespace XPathSyntax

open Token (spell)

variable {limits : Limits} {t : Tree}

theorem wellFormed_of_parse {text : String} (h : parse limits text = .ok (some t)) :
    t.wellFormed .expression = true := by
  obtain ⟨ts, more, hts, hmore, tells⟩ := Source.tells_ofChars 1 false text.toList
  rw [parse, Source.ofText, hts] at h
  obtain ⟨-, n, hd⟩ := derives_of_parseSource tells.legible.kind_ne_endOfInput hmore h
  exact hd.wellFormed ⟨false, tells.legible⟩

namespace Tree

def text (t : Tree) : String :=
  String.ofList (spell t.grouped)

example : (binary .times (absolutePath []) (call "text" [integer "-1"])).text =
    "( / ) * ( text ( -1 ) )" := by
  decide

theorem parse_text (h : t.wellFormed .expression = true) (hn : 2 * t.height ≤ limits.nesting)
    (hh : t.height ≤ limits.height) : parse limits t.text = .ok (some t) := by
  obtain ⟨⟨n, hd, hneed⟩, hlegible⟩ := written_of_wellFormed h
  have legible := hlegible [] Token.trailing_nil
  rw [List.append_nil] at legible
  obtain ⟨us, hus, hcontent⟩ := Source.ofText_spell legible
  have hcharge := t.charge_le
  have need : n ≤ limits.nesting := Nat.le_trans hneed hn
  have charge : t.charge ≤ limits.height := by omega
  have derived : Grammar.Derives .expression us t n := hd.of_content hcontent
  rw [parse, text, hus]
  exact (parseSource_eq_ok_iff derived.kind_ne_endOfInput).2 ⟨n, derived, need, charge⟩

end Tree

/-- Texts denote well-formed trees and no others, and every well-formed tree is denoted by a text;
the limits that it takes are in proportion to the height of the tree. -/
theorem denotes_exactly_wellFormed :
    (∀ (text : String) (limits : Limits) (t : Tree),
      parse limits text = .ok (some t) → t.wellFormed .expression = true) ∧
    ∀ t : Tree, t.wellFormed .expression = true → ∃ text : String,
      (∀ limits : Limits, 2 * t.height ≤ limits.nesting → t.height ≤ limits.height →
        parse limits text = .ok (some t)) ∧
      (t.height < 1073741824 → parse ⟨Count.top, Count.top⟩ text = .ok (some t)) := by
  refine ⟨fun _ _ _ h => wellFormed_of_parse h, ?_⟩
  intro t h
  refine ⟨t.text, fun _ hn hh => Tree.parse_text h hn hh, ?_⟩
  intro hheight
  refine Tree.parse_text h ?_ ?_
  · simp only [Count.top]
    omega
  · simp only [Count.top]
    omega

theorem denotes_exactly_wellFormed_times :
    let t : Tree := .binary .times (.absolutePath []) (.call "text" [.integer "-1"])
    parse ⟨9, 9⟩ "(/) * text(-1)" = .ok (some t) ∧ t.wellFormed .expression = true ∧
      t.height < 1073741824 ∧
      ∃ text : String, parse ⟨Count.top, Count.top⟩ text = .ok (some t) := by
  intro t
  have parsed : parse ⟨9, 9⟩ "(/) * text(-1)" = .ok (some t) := by decide +kernel
  have hwell := denotes_exactly_wellFormed.1 _ _ t parsed
  have hheight : t.height < 1073741824 := by decide
  obtain ⟨text, -, hwide⟩ := denotes_exactly_wellFormed.2 t hwell
  exact ⟨parsed, hwell, hheight, text, hwide hheight⟩

end XPathSyntax
