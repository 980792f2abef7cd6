import XPathSyntax.Proofs.Grammar.Completeness
import XPathSyntax.Proofs.Grammar.Endings

/-! What is accepted. A list of tokens is accepted with a tree if and only if it derives the tree
and stays within the limits; the limits are charged with the nesting that the derivation needs and
with the height of the tree, and with nothing else. -/

namespace XPathSyntax

open Grammar (Derives Sentence)

section

variable {limits : Limits} {ts : List Token} {t : Tree} {n : Nat}

/-- What becomes of tokens that derive a tree: they are accepted, or one of the limits is passed,
and then it is indeed too low. -/
theorem parseSource_of_derives (limits : Limits) (h : Derives .expression ts t n) :
    n ≤ limits.nesting ∧ t.charge ≤ limits.height ∧
        parseSource limits (ts.map .token) = .ok (some t) ∨
      limits.nesting < n ∧
        (∃ line, parseSource limits (ts.map .token) = .error (.tooDeep limits.nesting line)) ∨
      limits.height < t.charge ∧
        ∃ line, parseSource limits (ts.map .token) = .error (.tooDeep limits.height line) := by
  obtain ⟨x, xs, rfl, -⟩ := h.begins
  have hkind := h.kind_ne_endOfInput
  obtain ⟨d, ht, hd⟩ := (Cursor.faces_first x xs []).takes_all hkind
  have parsed := parseSource_cons limits (hkind x List.mem_cons_self) xs []
  rw [List.append_nil] at parsed
  rw [parsed]
  cases Parser.costs_sentence limits h ht (by rw [hd]; rfl) with
  | within hn hh ho => exact .inl ⟨hn, hh, by rw [ho]; rfl⟩
  | nesting hn ho =>
    obtain ⟨line, e, ho⟩ := ho
    exact .inr (.inl ⟨hn, line, by rw [ho]; rfl⟩)
  | height hh ho =>
    obtain ⟨line, e, ho⟩ := ho
    exact .inr (.inr ⟨hh, line, by rw [ho]; rfl⟩)

/-- Whatever is accepted has been derived, and the source has ended behind it. -/
theorem derives_of_parseSource {more : Source} (hts : ∀ x ∈ ts, x.kind ≠ .endOfInput)
    (hmore : Cursor.Closed more) (h : parseSource limits (ts.map .token ++ more) = .ok (some t)) :
    more = [] ∧ ∃ n, Derives .expression ts t n := by
  by_cases hne : ts = []
  · subst hne
    rcases hmore with rfl | ⟨error, rest, rfl⟩
    · cases h
    · cases h
  · have ends := ends_of_tokens limits hts hne hmore
    rw [h] at ends
    cases ends with
    | accepted hnil hd => exact ⟨hnil, _, hd⟩

theorem parseSource_eq_ok_iff (hts : ∀ x ∈ ts, x.kind ≠ .endOfInput) :
    parseSource limits (ts.map .token) = .ok (some t) ↔
      ∃ n, Derives .expression ts t n ∧ n ≤ limits.nesting ∧ t.charge ≤ limits.height := by
  constructor
  · intro h
    obtain ⟨-, n, hd⟩ := derives_of_parseSource hts (.inl rfl) (by simpa using h)
    rcases parseSource_of_derives limits hd with ⟨hn, hh, -⟩ | ⟨-, line, he⟩ | ⟨-, line, he⟩
    · exact ⟨n, hd, hn, hh⟩
    · rw [h] at he
      cases he
    · rw [h] at he
      cases he
  · rintro ⟨n, hd, hn, hh⟩
    rcases parseSource_of_derives limits hd with ⟨-, -, ho⟩ | ⟨hn', -⟩ | ⟨hh', -⟩
    · exact ho
    · omega
    · omega

/-- The grammar is unambiguous. -/
theorem Grammar.Derives.unique {t' : Tree} {n' : Nat} (h : Derives .expression ts t n)
    (h' : Derives .expression ts t' n') : t = t' := by
  let wide : Limits := ⟨max n n', max t.charge t'.charge⟩
  have accepted {u m} (hu : Derives .expression ts u m) (hm : m ≤ wide.nesting)
      (hc : u.charge ≤ wide.height) : parseSource wide (ts.map .token) = .ok (some u) :=
    (parseSource_eq_ok_iff hu.kind_ne_endOfInput).2 ⟨m, hu, hm, hc⟩
  have first := accepted h (Nat.le_max_left ..) (Nat.le_max_left ..)
  have second := accepted h' (Nat.le_max_right ..) (Nat.le_max_right ..)
  rw [first] at second
  cases second
  rfl

theorem parseSource_eq_none_iff (hts : ∀ x ∈ ts, x.kind ≠ .endOfInput) :
    parseSource limits (ts.map .token) = .ok none ↔ ts = [] := by
  constructor
  · intro h
    apply Classical.not_not.1
    intro hne
    have ends := ends_of_tokens limits hts hne (.inl rfl)
    rw [List.append_nil, h] at ends
    cases ends
  · rintro rfl
    rfl

end

end XPathSyntax
