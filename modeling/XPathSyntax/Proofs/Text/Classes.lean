import XPathSyntax.Tree.WellFormed

/-! Classes of texts. What a text of a class is made of is said by concatenation, so that the class
can be built and taken apart without reading. -/

namespace XPathSyntax.Text

open Lexeme (beginsName continuesName)

variable {p : Char → Bool} {c : Char} {s chars rest : List Char}

/-- The text does not begin with a character of this class. -/
def Stops (p : Char → Bool) (rest : List Char) : Prop :=
  ∀ c, rest.head? = some c → p c = false

theorem stops_dropWhile (p : Char → Bool) (chars : List Char) : Stops p (chars.dropWhile p) := by
  intro c h
  have := List.head?_dropWhile_not p chars
  rwa [h] at this

theorem stops_nil (p : Char → Bool) : Stops p [] := by
  intro c h
  cases h

theorem stops_cons (hc : p c = false) (rest : List Char) : Stops p (c :: rest) := by
  intro d hd
  cases hd
  exact hc

theorem mem_takeWhile (h : c ∈ chars.takeWhile p) : p c = true :=
  List.all_eq_true.1 List.all_takeWhile c h

theorem forall_bne (h : c ∉ chars) : ∀ d ∈ chars, (d != c) = true := by
  intro d hd
  have : d ≠ c := fun he => h (he ▸ hd)
  simpa using this

theorem Stops.takeWhile_append (hs : ∀ c ∈ s, p c = true) (h : Stops p rest) :
    (s ++ rest).takeWhile p = s := by
  rw [List.takeWhile_append_of_pos hs]
  cases rest with
  | nil => simp
  | cons c rest => simp [h c rfl]

theorem Stops.dropWhile_append (hs : ∀ c ∈ s, p c = true) (h : Stops p rest) :
    (s ++ rest).dropWhile p = rest := by
  rw [List.dropWhile_append_of_pos hs]
  cases rest with
  | nil => rfl
  | cons c rest => simp [h c rfl]

/-- What is skipped of a text ends where a character of another class stands. -/
theorem dropWhile_append_cons (hc : p c = false) (chars rest : List Char) :
    (chars ++ c :: rest).dropWhile p = chars.dropWhile p ++ c :: rest := by
  rw [List.dropWhile_append]
  split
  next h =>
    rw [List.isEmpty_iff.1 h, List.dropWhile_cons_of_neg (by simp [hc])]
    rfl
  next => rfl

/-- A text has only one longest prefix in a class. -/
theorem Stops.append_inj {s' rest' : List Char} (h : Stops p rest) (h' : Stops p rest')
    (hs : ∀ c ∈ s, p c = true) (hs' : ∀ c ∈ s', p c = true) (heq : s ++ rest = s' ++ rest') :
    s = s' ∧ rest = rest' := by
  constructor
  · rw [← h.takeWhile_append hs, heq, h'.takeWhile_append hs']
  · rw [← h.dropWhile_append hs, heq, h'.dropWhile_append hs']

theorem isName_iff : Text.isName s = true ↔
    ∃ c rest, s = c :: rest ∧ beginsName c = true ∧ ∀ d ∈ s, continuesName d = true := by
  cases s with
  | nil => simp [Text.isName]
  | cons c rest =>
    simp only [Text.isName, Bool.and_eq_true, List.all_eq_true, List.cons.injEq, List.mem_cons]
    constructor
    · rintro ⟨hc, hrest⟩
      refine ⟨c, rest, ⟨rfl, rfl⟩, hc, ?_⟩
      rintro d (rfl | hd)
      · simp [continuesName, hc]
      · exact hrest d hd
    · rintro ⟨_, _, ⟨rfl, rfl⟩, hc, hall⟩
      exact ⟨hc, fun d hd => hall d (.inr hd)⟩

theorem isName_takeWhile (h : beginsName c = true) :
    Text.isName ((c :: rest).takeWhile continuesName) = true := by
  have hc : continuesName c = true := by simp [continuesName, h]
  rw [List.takeWhile_cons_of_pos hc]
  refine isName_iff.2 ⟨c, _, rfl, h, ?_⟩
  intro d hd
  rcases List.mem_cons.1 hd with rfl | hd
  · exact hc
  · exact mem_takeWhile hd

theorem append_withoutSign (s : List Char) :
    ∃ sign, (sign = [] ∨ sign = ['-']) ∧ s = sign ++ withoutSign s := by
  unfold withoutSign
  split
  next digits => exact ⟨['-'], .inr rfl, rfl⟩
  next => exact ⟨[], .inl rfl, rfl⟩

theorem withoutSign_append {sign number : List Char} (hs : sign = [] ∨ sign = ['-'])
    (hn : number.head? ≠ some '-') : withoutSign (sign ++ number) = number := by
  rcases hs with rfl | rfl
  · rw [List.nil_append]
    unfold withoutSign
    split
    next => exact absurd rfl hn
    next => rfl
  · rfl

theorem isInteger_iff : isInteger s = true ↔
    ∃ sign digits, (sign = [] ∨ sign = ['-']) ∧ digits ≠ [] ∧
      (∀ c ∈ digits, c.isDigit = true) ∧ s = sign ++ digits := by
  have meaning : isInteger s = true ↔
      withoutSign s ≠ [] ∧ ∀ c ∈ withoutSign s, c.isDigit = true := by
    simp [isInteger]
  rw [meaning]
  constructor
  · intro h
    obtain ⟨sign, hs, hsign⟩ := append_withoutSign s
    exact ⟨sign, withoutSign s, hs, h.1, h.2, hsign⟩
  · rintro ⟨sign, digits, hs, hne, hd, rfl⟩
    rw [withoutSign_append hs]
    · exact ⟨hne, hd⟩
    · intro hc
      exact absurd (hd '-' (List.mem_of_mem_head? hc)) (by decide)

theorem isDecimal_iff : isDecimal s = true ↔
    ∃ sign whole fraction, (sign = [] ∨ sign = ['-']) ∧ (whole ≠ [] ∨ fraction ≠ []) ∧
      (∀ c ∈ whole, c.isDigit = true) ∧ (∀ c ∈ fraction, c.isDigit = true) ∧
      s = sign ++ whole ++ '.' :: fraction := by
  constructor
  · intro h
    obtain ⟨sign, hs, hsign⟩ := append_withoutSign s
    have parts := List.takeWhile_append_dropWhile (p := Char.isDigit) (l := withoutSign s)
    simp only [isDecimal] at h
    split at h
    next fraction hd =>
      simp only [Bool.and_eq_true, List.all_eq_true, Bool.not_eq_true', Bool.and_eq_false_iff,
        List.isEmpty_eq_false_iff] at h
      refine ⟨sign, _, fraction, hs, h.2, fun _ => mem_takeWhile, h.1, ?_⟩
      rw [hd] at parts
      rw [List.append_assoc, parts, ← hsign]
    next => cases h
  · rintro ⟨sign, whole, fraction, hs, hne, hw, hf, rfl⟩
    have unsigned : withoutSign (sign ++ whole ++ '.' :: fraction) = whole ++ '.' :: fraction := by
      rw [List.append_assoc]
      apply withoutSign_append hs
      cases whole with
      | nil => simp
      | cons c whole =>
        intro hc
        cases hc
        exact absurd (hw '-' List.mem_cons_self) (by decide)
    have stop : Stops Char.isDigit ('.' :: fraction) := stops_cons (by decide) fraction
    simp only [isDecimal, unsigned, stop.takeWhile_append hw, stop.dropWhile_append hw,
      Bool.and_eq_true, List.all_eq_true, Bool.not_eq_true', Bool.and_eq_false_iff,
      List.isEmpty_eq_false_iff]
    exact ⟨hf, hne⟩

theorem isReference_iff : isReference s = true ↔
    isName s = true ∨
      ∃ qualifier name, isName qualifier = true ∧ isName name = true ∧
        s = qualifier ++ ':' :: name := by
  have inside {name : List Char} (h : isName name = true) : ∀ c ∈ name, (c != ':') = true := by
    obtain ⟨-, -, -, -, hall⟩ := isName_iff.1 h
    intro c hc
    have : c ≠ ':' := by
      rintro rfl
      exact absurd (hall ':' hc) (by decide)
    simpa using this
  constructor
  · intro h
    have split := List.takeWhile_append_dropWhile (p := (· != ':')) (l := s)
    have stop := stops_dropWhile (· != ':') s
    unfold isReference at h
    split at h
    next => exact .inl h
    next c name hd =>
      have hc : c = ':' := by simpa using stop c (by rw [hd]; rfl)
      rw [hd, hc] at split
      rw [Bool.and_eq_true] at h
      exact .inr ⟨_, name, h.1, h.2, split.symm⟩
  · rintro (h | ⟨qualifier, name, hq, hn, rfl⟩)
    · have none := (stops_nil (· != ':')).dropWhile_append (inside h)
      rw [List.append_nil] at none
      unfold isReference
      rw [none]
      exact h
    · have stop : Stops (· != ':') (':' :: name) := stops_cons (by decide) name
      unfold isReference
      rw [stop.dropWhile_append (inside hq), stop.takeWhile_append (inside hq), hq]
      exact hn

end XPathSyntax.Text
