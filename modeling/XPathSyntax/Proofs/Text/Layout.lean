import Mathlib.Data.List.TakeWhile
import XPathSyntax.Proofs.Text.Classes

/-! Texts that differ in their layout only. Blanks may be replaced by other blanks wherever they do
not belong to a literal, but not by nothing, save at the beginning and at the end of the text. -/

namespace XPathSyntax.Text

open Lexeme (isBlank)

def isQuote (c : Char) : Bool :=
  c == '\x22' || c == '\''

def isPlain (c : Char) : Bool :=
  !isBlank c && !isQuote c

/-- Blanks in the place of blanks. If `sameLines` holds, they have as many line ends. -/
structure Gaps (sameLines : Prop) (blanks blanks' : List Char) : Prop where
  left : ∀ c ∈ blanks, isBlank c = true
  right : ∀ c ∈ blanks', isBlank c = true
  lines : sameLines → blanks.count '\n' = blanks'.count '\n'

/-- The texts differ only in blanks outside the literals, where both have some, and in those with
which they end. Literals are found from left to right: a quote opens one, and the next quote of the
same kind closes it. -/
inductive Respaced (sameLines : Prop) : List Char → List Char → Prop where
  | ending {s s'} : (∀ c ∈ s, isBlank c = true) → (∀ c ∈ s', isBlank c = true) →
      Respaced sameLines s s'
  | plain {c s s'} : isPlain c = true → Respaced sameLines s s' →
      Respaced sameLines (c :: s) (c :: s')
  | gap {blanks blanks' s s'} : Gaps sameLines blanks blanks' → blanks ≠ [] → blanks' ≠ [] →
      Respaced sameLines s s' → Respaced sameLines (blanks ++ s) (blanks' ++ s')
  | literal {quote content s s'} : isQuote quote = true → quote ∉ content →
      Respaced sameLines s s' →
      Respaced sameLines (quote :: (content ++ quote :: s)) (quote :: (content ++ quote :: s'))
  /-- Behind a quote that is never closed it is open what a literal is, so all blanks may differ. -/
  | unclosed {quote s s'} : isQuote quote = true → quote ∉ s →
      s.filter (!isBlank ·) = s'.filter (!isBlank ·) →
      Respaced sameLines (quote :: s) (quote :: s')

/-- The texts differ in their layout only. If `sameLines` holds, what stands in them stands on the
same lines. -/
inductive Relaid (sameLines : Prop) : List Char → List Char → Prop where
  | start {blanks blanks' s s'} : Gaps sameLines blanks blanks' → Respaced sameLines s s' →
      Relaid sameLines (blanks ++ s) (blanks' ++ s')

variable {sameLines : Prop} {p : Char → Bool} {c quote : Char}
  {blanks blanks' content s s' t : List Char}

theorem Gaps.symm (h : Gaps sameLines blanks blanks') : Gaps sameLines blanks' blanks :=
  ⟨h.right, h.left, fun hl => (h.lines hl).symm⟩

def blankChars : List Char :=
  [' ', '\t', '\n', '\x0c', '\r']

theorem eq_false_of_blank (hp : blankChars.any p = false) (hc : isBlank c = true) :
    p c = false := by
  have hmem : c ∈ blankChars := by simpa [isBlank, blankChars, or_assoc] using hc
  simpa using List.any_eq_false.1 hp c hmem

theorem isBlank_of_isPlain (h : isPlain c = true) : isBlank c = false := by
  rw [isPlain, Bool.and_eq_true, Bool.not_eq_true'] at h
  exact h.1

theorem isQuote_of_isPlain (h : isPlain c = true) : isQuote c = false := by
  rw [isPlain, Bool.and_eq_true, Bool.not_eq_true', Bool.not_eq_true'] at h
  exact h.2

theorem isQuote_iff : isQuote c = true ↔ c = '\x22' ∨ c = '\'' := by
  simp [isQuote]

theorem isBlank_of_isQuote (h : isQuote c = true) : isBlank c = false := by
  rcases isQuote_iff.1 h with rfl | rfl <;> rfl

theorem isPlain_of_continuesName (h : Lexeme.continuesName c = true) : isPlain c = true := by
  have blank : isBlank c = false := by
    rw [Bool.eq_false_iff]
    intro hc
    have := eq_false_of_blank (p := Lexeme.continuesName) rfl hc
    rw [h] at this
    cases this
  have quote : isQuote c = false := by
    rw [Bool.eq_false_iff]
    intro hc
    rcases isQuote_iff.1 hc with rfl | rfl <;> cases h
  rw [isPlain, blank, quote]
  rfl

namespace Respaced

theorem not_mem_of_filter (hq : isQuote quote = true) (hs : quote ∉ s)
    (h : s.filter (!isBlank ·) = s'.filter (!isBlank ·)) : quote ∉ s' := by
  have blank := isBlank_of_isQuote hq
  intro hs'
  have : quote ∈ s'.filter (!isBlank ·) := List.mem_filter.2 ⟨hs', by simp [blank]⟩
  rw [← h] at this
  exact hs (List.mem_filter.1 this).1

theorem symm (h : Respaced sameLines s s') : Respaced sameLines s' s := by
  induction h with
  | ending hs hs' => exact .ending hs' hs
  | plain hc _ ih => exact .plain hc ih
  | gap hgaps hne hne' _ ih => exact .gap hgaps.symm hne' hne ih
  | literal hq hcontent _ ih => exact .literal hq hcontent ih
  | unclosed hq hs h => exact .unclosed hq (not_mem_of_filter hq hs h) h.symm

/-- Both texts begin with the same character or with a blank. -/
theorem stops (h : Respaced sameLines s s') (hp : blankChars.any p = false) (hs : Stops p s) :
    Stops p s' := by
  cases h with
  | ending _ hs' =>
    intro c hc
    exact eq_false_of_blank hp (hs' c (List.mem_of_mem_head? hc))
  | plain => exact stops_cons (hs _ rfl) _
  | gap hgaps _ hne' =>
    obtain ⟨b, bs, rfl⟩ := List.exists_cons_of_ne_nil hne'
    exact stops_cons (eq_false_of_blank hp (hgaps.right b List.mem_cons_self)) _
  | literal | unclosed => exact stops_cons (hs _ rfl) _

/-- A character that is no blank stands for itself, or opens a literal, or is a quote that is never
closed. -/
theorem cons_inv (h : Respaced sameLines (c :: s) s') (hc : isBlank c = false) :
    (isPlain c = true ∧ ∃ t, s' = c :: t ∧ Respaced sameLines s t) ∨
    (isQuote c = true ∧ c ∉ s ∧ ∃ t, s' = c :: t ∧ c ∉ t) ∨
    ∃ content rest t, isQuote c = true ∧ c ∉ content ∧ s = content ++ c :: rest ∧
      s' = c :: (content ++ c :: t) ∧ Respaced sameLines rest t := by
  generalize hcs : c :: s = text at h
  cases h with
  | ending hs =>
    subst hcs
    rw [hs c List.mem_cons_self] at hc
    cases hc
  | plain hplain h =>
    cases hcs
    exact .inl ⟨hplain, _, rfl, h⟩
  | gap hgaps hne =>
    obtain ⟨b, bs, rfl⟩ := List.exists_cons_of_ne_nil hne
    obtain ⟨rfl, -⟩ := List.cons.inj hcs
    rw [hgaps.left c List.mem_cons_self] at hc
    cases hc
  | literal hq hcontent h =>
    cases hcs
    exact .inr (.inr ⟨_, _, _, hq, hcontent, rfl, rfl, h⟩)
  | unclosed hq hs h =>
    cases hcs
    exact .inr (.inl ⟨hq, hs, _, rfl, not_mem_of_filter hq hs h⟩)

theorem plain_inv (h : Respaced sameLines (c :: s) s') (hc : isPlain c = true) :
    ∃ t, s' = c :: t ∧ Respaced sameLines s t := by
  have quote := isQuote_of_isPlain hc
  obtain ⟨-, h⟩ | ⟨hq, -⟩ | ⟨_, _, _, hq, -⟩ := h.cons_inv (isBlank_of_isPlain hc)
  · exact h
  all_goals
    rw [quote] at hq
    cases hq

theorem append_inv (h : Respaced sameLines (content ++ s) s')
    (hcontent : content.all isPlain = true) :
    ∃ t, s' = content ++ t ∧ Respaced sameLines s t := by
  induction content generalizing s' with
  | nil => exact ⟨s', rfl, h⟩
  | cons c content ih =>
    rw [List.all_cons, Bool.and_eq_true] at hcontent
    obtain ⟨t, rfl, ht⟩ := h.plain_inv hcontent.1
    obtain ⟨u, rfl, hu⟩ := ih ht hcontent.2
    exact ⟨u, rfl, hu⟩

theorem literal_inv (h : Respaced sameLines (quote :: (content ++ quote :: s)) s')
    (hq : isQuote quote = true) (hcontent : quote ∉ content) :
    ∃ t, s' = quote :: (content ++ quote :: t) ∧ Respaced sameLines s t := by
  obtain ⟨hplain, -⟩ | ⟨-, hs, -⟩ | ⟨inside, rest, t, -, hinside, heq, rfl, h⟩ :=
    h.cons_inv (isBlank_of_isQuote hq)
  · rw [isQuote_of_isPlain hplain] at hq
    cases hq
  · simp at hs
  · -- the first quote behind the opening one closes the literal
    have closes (t : List Char) : Stops (· != quote) (quote :: t) := stops_cons (by simp) t
    obtain ⟨rfl, hrest⟩ := (closes _).append_inj (closes _) (forall_bne hcontent)
      (forall_bne hinside) heq
    cases hrest
    exact ⟨t, rfl, h⟩

theorem unclosed_inv (h : Respaced sameLines (quote :: s) s') (hq : isQuote quote = true)
    (hs : quote ∉ s) : ∃ t, s' = quote :: t ∧ quote ∉ t := by
  obtain ⟨hplain, -⟩ | ⟨-, -, h⟩ | ⟨_, _, _, -, -, rfl, -⟩ := h.cons_inv (isBlank_of_isQuote hq)
  · rw [isQuote_of_isPlain hplain] at hq
    cases hq
  · exact h
  · simp at hs

end Respaced

/-- Behind the blanks with which they begin, the texts differ in their layout only. These blanks
have as many line ends, unless nothing else comes. -/
structure Trimmed (sameLines : Prop) (s s' : List Char) : Prop where
  body : Respaced sameLines (s.dropWhile isBlank) (s'.dropWhile isBlank)
  lines : sameLines → s.dropWhile isBlank ≠ [] →
    (s.takeWhile isBlank).count '\n' = (s'.takeWhile isBlank).count '\n'

namespace Trimmed

theorem of_cons (h : Respaced sameLines (c :: s) (c :: s')) (hc : isBlank c = false) :
    Trimmed sameLines (c :: s) (c :: s') := by
  have drop (s : List Char) : (c :: s).dropWhile isBlank = c :: s :=
    List.dropWhile_cons_of_neg (by simp [hc])
  have take (s : List Char) : (c :: s).takeWhile isBlank = [] :=
    List.takeWhile_cons_of_neg (by simp [hc])
  refine ⟨?_, ?_⟩
  · rw [drop, drop]
    exact h
  · intro _ _
    rw [take, take]

theorem append (h : Trimmed sameLines s s') (hgaps : Gaps sameLines blanks blanks') :
    Trimmed sameLines (blanks ++ s) (blanks' ++ s') := by
  refine ⟨?_, ?_⟩
  · rw [List.dropWhile_append_of_pos hgaps.left, List.dropWhile_append_of_pos hgaps.right]
    exact h.body
  · intro hl hne
    rw [List.dropWhile_append_of_pos hgaps.left] at hne
    rw [List.takeWhile_append_of_pos hgaps.left, List.takeWhile_append_of_pos hgaps.right,
      List.count_append, List.count_append, hgaps.lines hl, h.lines hl hne]

theorem dropWhile_eq_nil (h : Trimmed sameLines s s') (hs : s.dropWhile isBlank = []) :
    s'.dropWhile isBlank = [] := by
  have body := h.body.symm
  have stop := stops_dropWhile isBlank s'
  rw [hs] at body
  cases hc : s'.dropWhile isBlank with
  | nil => rfl
  | cons c t =>
    rw [hc] at body stop
    cases hblank : isBlank c with
    | true =>
      rw [stop c rfl] at hblank
      cases hblank
    | false => obtain ⟨-, _, h, -⟩ | ⟨-, -, _, h, -⟩ | ⟨_, _, _, -, -, -, h, -⟩ :=
        body.cons_inv hblank <;> cases h

end Trimmed

theorem Respaced.trim (h : Respaced sameLines s s') : Trimmed sameLines s s' := by
  induction h with
  | ending hs hs' =>
    have hs := List.dropWhile_eq_nil_iff.2 hs
    have hs' := List.dropWhile_eq_nil_iff.2 hs'
    refine ⟨?_, fun _ hne => absurd hs hne⟩
    rw [hs, hs']
    exact .ending (by simp) (by simp)
  | plain hc h => exact .of_cons (.plain hc h) (isBlank_of_isPlain hc)
  | gap hgaps _ _ _ ih => exact ih.append hgaps
  | literal hq hcontent h => exact .of_cons (.literal hq hcontent h) (isBlank_of_isQuote hq)
  | unclosed hq hs h => exact .of_cons (.unclosed hq hs h) (isBlank_of_isQuote hq)

theorem Relaid.trim (h : Relaid sameLines s s') : Trimmed sameLines s s' := by
  cases h with
  | start hgaps h => exact h.trim.append hgaps

theorem Respaced.blanks_inv (h : Respaced sameLines (blanks ++ c :: s) s')
    (hblanks : ∀ c ∈ blanks, isBlank c = true) (hc : isPlain c = true) :
    ∃ blanks' t, s' = blanks' ++ c :: t ∧ Gaps sameLines blanks blanks' ∧
      Respaced sameLines s t := by
  have stop : Stops isBlank (c :: s) := stops_cons (isBlank_of_isPlain hc) s
  obtain ⟨body, lines⟩ := h.trim
  rw [stop.dropWhile_append hblanks] at body lines
  rw [stop.takeWhile_append hblanks] at lines
  obtain ⟨t, ht, hrest⟩ := body.plain_inv hc
  refine ⟨s'.takeWhile isBlank, t, ?_, ⟨hblanks, fun _ => mem_takeWhile, ?_⟩, hrest⟩
  · rw [← ht, List.takeWhile_append_dropWhile]
  · exact fun hl => lines hl (List.cons_ne_nil _ _)

end XPathSyntax.Text
