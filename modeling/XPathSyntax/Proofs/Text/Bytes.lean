import XPathSyntax.Proofs.Text.Classes

/-! Texts byte by byte. A character of ASCII is its own byte in UTF-8, and all bytes of the others
lie beyond ASCII. So a class of characters that holds all of those beyond ASCII, or none, divides
the bytes of a text where it divides the text. -/

namespace XPathSyntax.Text

/-- The bytes of a text, each as the character with its number. -/
def asBytes (chars : List Char) : List Char :=
  chars.flatMap fun c => (String.utf8EncodeChar c).map Char.ofUInt8

def isAscii (chars : List Char) : Bool :=
  chars.all fun c => c.toNat < 0x80

/-- The characters beyond ASCII are all in this class or all outside. -/
def Uniform (p : Char → Bool) : Prop :=
  ∃ b, ∀ c : Char, 0x80 ≤ c.toNat → p c = b

variable {p : Char → Bool} {a c : Char} {s t : List Char}

theorem asBytes_append (s t : List Char) : asBytes (s ++ t) = asBytes s ++ asBytes t :=
  List.flatMap_append

theorem asBytes_cons (c : Char) (s : List Char) : asBytes (c :: s) = asBytes [c] ++ asBytes s :=
  asBytes_append [c] s

theorem toNat_ofUInt8 (b : UInt8) : (Char.ofUInt8 b).toNat = b.toNat :=
  UInt8.toNat_toUInt32 b

theorem asBytes_singleton (hc : c.toNat < 0x80) : asBytes [c] = [c] := by
  have low : c.val.toNat ≤ 127 := Nat.le_of_lt_succ hc
  simp only [asBytes, List.flatMap_singleton, String.utf8EncodeChar, low, ↓reduceIte, List.map_cons,
    List.map_nil, List.cons.injEq, and_true]
  apply Char.toNat_inj.1
  rw [toNat_ofUInt8, UInt8.toNat_ofNat']
  exact Nat.mod_eq_of_lt (by omega)

/-- The bytes of what lies beyond ASCII lie there. -/
theorem le_toNat_of_mem_asBytes {d : Char} (hc : 0x80 ≤ c.toNat) (hd : d ∈ asBytes [c]) :
    0x80 ≤ d.toNat := by
  have high : ¬c.val.toNat ≤ 127 := Nat.not_le_of_lt hc
  simp only [asBytes, List.flatMap_singleton, String.utf8EncodeChar, high, ↓reduceIte] at hd
  obtain ⟨b, hb, rfl⟩ := List.mem_map.1 hd
  rw [toNat_ofUInt8]
  repeat' split at hb
  all_goals
    simp only [List.mem_cons, List.not_mem_nil, or_false] at hb
    rcases hb with rfl | rfl | rfl | rfl <;> simp <;> omega

/-- Every character has a first byte. -/
theorem exists_asBytes_cons (c : Char) (s : List Char) :
    ∃ d more, d ∈ asBytes [c] ∧ asBytes (c :: s) = d :: more := by
  have hne : asBytes [c] ≠ [] := by
    rw [← List.length_pos_iff]
    simpa [asBytes] using c.utf8Size_pos
  obtain ⟨d, more, hd⟩ := List.exists_cons_of_ne_nil hne
  refine ⟨d, more ++ asBytes s, ?_, ?_⟩
  · rw [hd]
    exact List.mem_cons_self
  · rw [asBytes_cons, hd, List.cons_append]

theorem mem_asBytes {d : Char} : d ∈ asBytes s ↔ ∃ c ∈ s, d ∈ asBytes [c] := by
  simp [asBytes]

theorem isAscii_iff : isAscii s = true ↔ ∀ c ∈ s, c.toNat < 0x80 := by
  simp [isAscii]

@[simp]
theorem isAscii_nil : isAscii [] = true :=
  rfl

@[simp]
theorem isAscii_append (s t : List Char) : isAscii (s ++ t) = (isAscii s && isAscii t) :=
  List.all_append

@[simp]
theorem isAscii_cons (c : Char) (s : List Char) :
    isAscii (c :: s) = (decide (c.toNat < 0x80) && isAscii s) :=
  List.all_cons

theorem asBytes_of_ascii (h : isAscii s = true) : asBytes s = s := by
  induction s with
  | nil => rfl
  | cons c s ih =>
    rw [isAscii_cons, Bool.and_eq_true, decide_eq_true_eq] at h
    rw [asBytes_cons, asBytes_singleton h.1, ih h.2]
    rfl

/-- Only a text of ASCII has the bytes of one. -/
theorem eq_of_asBytes_eq (h : asBytes s = t) (ht : isAscii t = true) : s = t := by
  rw [← h, asBytes_of_ascii]
  refine isAscii_iff.2 fun c hc => Nat.lt_of_not_le fun hbeyond => ?_
  obtain ⟨d, -, hd, -⟩ := exists_asBytes_cons c []
  have ascii := isAscii_iff.1 ht d (h ▸ mem_asBytes.2 ⟨c, hc, hd⟩)
  exact Nat.not_le_of_lt ascii (le_toNat_of_mem_asBytes hbeyond hd)

/-- A byte of ASCII in front of the others is a character of its own. -/
theorem asBytes_eq_cons (ha : a.toNat < 0x80) (h : asBytes s = a :: t) :
    ∃ rest, s = a :: rest ∧ asBytes rest = t := by
  cases s with
  | nil => cases h
  | cons c s =>
    by_cases hc : c.toNat < 0x80
    · rw [asBytes_cons, asBytes_singleton hc] at h
      cases h
      exact ⟨s, rfl, rfl⟩
    · obtain ⟨d, more, hd, hmore⟩ := exists_asBytes_cons c s
      obtain rfl : d = a := (List.cons.inj (hmore.symm.trans h)).1
      exact absurd (le_toNat_of_mem_asBytes (Nat.le_of_not_lt hc) hd) (Nat.not_le_of_lt ha)

namespace Uniform

theorem apply_asBytes (hp : Uniform p) {d : Char} (hd : d ∈ asBytes [c]) : p d = p c := by
  by_cases hc : c.toNat < 0x80
  · rw [asBytes_singleton hc, List.mem_singleton] at hd
    rw [hd]
  · obtain ⟨b, hb⟩ := hp
    have hc := Nat.le_of_not_lt hc
    rw [hb c hc, hb d (le_toNat_of_mem_asBytes hc hd)]

theorem all_asBytes (hp : Uniform p) (hs : ∀ c ∈ s, p c = true) :
    ∀ c ∈ asBytes s, p c = true := by
  intro d hd
  obtain ⟨c, hc, hdc⟩ := mem_asBytes.1 hd
  rw [hp.apply_asBytes hdc, hs c hc]

theorem stops_asBytes (hp : Uniform p) (h : Stops p s) : Stops p (asBytes s) := by
  cases s with
  | nil => exact h
  | cons c s =>
    intro d hd
    obtain ⟨e, more, he, hmore⟩ := exists_asBytes_cons c s
    rw [hmore] at hd
    cases hd
    rw [hp.apply_asBytes he, h c rfl]

theorem dropWhile_asBytes (hp : Uniform p) (s : List Char) :
    (asBytes s).dropWhile p = asBytes (s.dropWhile p) := by
  conv => lhs; rw [← List.takeWhile_append_dropWhile (p := p) (l := s), asBytes_append]
  exact (hp.stops_asBytes (stops_dropWhile p s)).dropWhile_append
    (hp.all_asBytes fun _ => mem_takeWhile)

end Uniform

theorem uniform_of_ascii (h : ∀ c, p c = true → c.toNat < 0x80) : Uniform p := by
  refine ⟨false, fun c hc => ?_⟩
  rw [Bool.eq_false_iff]
  intro hp
  exact Nat.not_le_of_lt (h c hp) hc

theorem mem_asBytes_of_ascii (ha : a.toNat < 0x80) (h : a ∈ asBytes s) : a ∈ s := by
  obtain ⟨c, hc, hac⟩ := mem_asBytes.1 h
  by_cases hascii : c.toNat < 0x80
  · rw [asBytes_singleton hascii, List.mem_singleton] at hac
    rwa [hac]
  · exact absurd (le_toNat_of_mem_asBytes (Nat.le_of_not_lt hascii) hac) (Nat.not_le_of_lt ha)

end XPathSyntax.Text
