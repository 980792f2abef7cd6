import XPathSyntax.Proofs.Text.Classes
import XPathSyntax.Text.Quoted

/-! Quoted text can be read back. What is written for a character says where it ends and which
character it is, whatever follows; so quoted text says where its closing quote stands and what it
quotes. -/

namespace XPathSyntax.Text

variable {c d : Char} {s t e e' rest rest' : List Char} {m n : Nat}

theorem digitChar_inj (hm : m < 16) (hn : n < 16) (h : m.digitChar = n.digitChar) : m = n := by
  have all : ∀ m < 16, ∀ n < 16, m.digitChar = n.digitChar → m = n := by decide
  exact all m hm n hn h

/-- The last hexadecimal digit, with those before it where there are any. -/
theorem exists_toDigits (n : Nat) :
    ∃ before, Nat.toDigits 16 n = before ++ [(n % 16).digitChar] ∧
      (n < 16 ∧ before = [] ∨ 16 ≤ n ∧ before = Nat.toDigits 16 (n / 16)) := by
  by_cases hn : n < 16
  · exact ⟨[], by rw [Nat.toDigits_of_lt_base hn, Nat.mod_eq_of_lt hn]; rfl, .inl ⟨hn, rfl⟩⟩
  · have hn := Nat.le_of_not_lt hn
    exact ⟨_, Nat.toDigits_of_base_le (by decide) hn, .inr ⟨hn, rfl⟩⟩

theorem toDigits_inj (h : Nat.toDigits 16 m = Nat.toDigits 16 n) : m = n := by
  induction m using Nat.strongRecOn generalizing n with
  | ind m ih =>
    obtain ⟨before, hbefore, hm⟩ := exists_toDigits m
    obtain ⟨before', hbefore', hn⟩ := exists_toDigits n
    rw [hbefore, hbefore'] at h
    obtain ⟨rfl, hlast⟩ := List.append_inj' h rfl
    have last : m % 16 = n % 16 :=
      digitChar_inj (Nat.mod_lt _ (by decide)) (Nat.mod_lt _ (by decide))
        (List.singleton_inj.1 hlast)
    rcases hm with ⟨hm, hnil⟩ | ⟨hm, hdigits⟩ <;> rcases hn with ⟨hn, hnil'⟩ | ⟨hn, hdigits'⟩
    · omega
    · exact absurd (hdigits'.symm.trans hnil) Nat.toDigits_ne_nil
    · exact absurd (hdigits.symm.trans hnil') Nat.toDigits_ne_nil
    · have quotient := ih (m / 16) (by omega) (hdigits.symm.trans hdigits')
      omega

theorem ne_of_mem_toDigits (h : c ∈ Nat.toDigits 16 n) : c ≠ '\x7d' := by
  induction n using Nat.strongRecOn with
  | ind n ih =>
    obtain ⟨before, hbefore, hn⟩ := exists_toDigits n
    rw [hbefore, List.mem_append, List.mem_singleton] at h
    rcases h with h | rfl
    · rcases hn with ⟨-, rfl⟩ | ⟨hn, rfl⟩
      · cases h
      · exact ih (n / 16) (by omega) h
    · exact Nat.digitChar_ne '\x7d' (by decide)

def letters : List (Char × Char) :=
  [('"', '"'), ('\\', '\\'), ('\n', 'n'), ('\r', 'r'), ('\t', 't'), ('\x00', '0')]

inductive Escapes (c : Char) : List Char → Prop where
  | itself : c ≠ '"' → c ≠ '\\' → Escapes c [c]
  | letter {l} : (c, l) ∈ letters → Escapes c ['\\', l]
  | codePoint : Escapes c (codePointEscape c)

theorem escapes_escape (c : Char) : Escapes c (escape c) := by
  unfold escape
  repeat' split
  iterate 6 next h => subst h; exact .letter (by decide)
  next => exact .codePoint
  next hquote hbackslash _ _ _ _ _ => exact .itself hquote hbackslash

theorem letter_inj {l : Char} (h : (c, l) ∈ letters) (h' : (d, l) ∈ letters) : c = d := by
  have all : ∀ a ∈ letters, ∀ b ∈ letters, a.2 = b.2 → a.1 = b.1 := by decide
  exact all _ h _ h' rfl

theorem letter_ne_u {l : Char} (h : (c, l) ∈ letters) : l ≠ 'u' := by
  have all : ∀ a ∈ letters, a.2 ≠ 'u' := by decide
  exact all _ h

theorem codePointEscape_append_inj
    (h : codePointEscape c ++ rest = codePointEscape d ++ rest') : c = d ∧ rest = rest' := by
  simp only [codePointEscape, List.cons_append, List.append_assoc, List.nil_append,
    List.cons.injEq, true_and] at h
  have stop (rest : List Char) : Stops (· != '\x7d') ('\x7d' :: rest) := stops_cons (by decide) rest
  have digits (n : Nat) : ∀ c ∈ Nat.toDigits 16 n, (c != '\x7d') = true := by
    intro c hc
    simpa using ne_of_mem_toDigits hc
  obtain ⟨hdigits, hrest⟩ := (stop rest).append_inj (stop rest') (digits _) (digits _) h
  exact ⟨Char.toNat_inj.1 (toDigits_inj hdigits), List.tail_eq_of_cons_eq hrest⟩

/-- No escape begins with a quote, so a quote that is read where a character could stand is the
closing one. -/
theorem Escapes.append_ne (h : Escapes c e) : e ++ rest ≠ '"' :: rest' := by
  intro heq
  cases h with
  | itself hquote _ => exact hquote (List.head_eq_of_cons_eq heq)
  | letter _ => exact absurd (List.head_eq_of_cons_eq heq) (by decide)
  | codePoint => exact absurd (List.head_eq_of_cons_eq heq) (by decide)

/-- An escape says where it ends and which character it stands for. -/
theorem Escapes.append_inj (h : Escapes c e) (h' : Escapes d e') (heq : e ++ rest = e' ++ rest') :
    c = d ∧ rest = rest' := by
  cases h with
  | itself _ hbackslash =>
    cases h' with
    | itself => exact List.cons.inj heq
    | letter | codePoint => exact absurd (List.head_eq_of_cons_eq heq) hbackslash
  | letter hl =>
    cases h' with
    | itself _ hbackslash => exact absurd (List.head_eq_of_cons_eq heq).symm hbackslash
    | letter hl' =>
      obtain ⟨rfl, hrest⟩ := List.cons.inj (List.tail_eq_of_cons_eq heq)
      exact ⟨letter_inj hl hl', hrest⟩
    | codePoint =>
      exact absurd (List.head_eq_of_cons_eq (List.tail_eq_of_cons_eq heq)) (letter_ne_u hl)
  | codePoint =>
    cases h' with
    | itself _ hbackslash => exact absurd (List.head_eq_of_cons_eq heq).symm hbackslash
    | letter hl' =>
      exact absurd (List.head_eq_of_cons_eq (List.tail_eq_of_cons_eq heq)).symm (letter_ne_u hl')
    | codePoint => exact codePointEscape_append_inj heq

/-- Between quotes every character may have its own form. -/
theorem Escapes.flatMap_append_inj {form : Char → List Char} (hform : ∀ c, Escapes c (form c))
    (h : s.flatMap form ++ '"' :: rest = t.flatMap form ++ '"' :: rest') :
    s = t ∧ rest = rest' := by
  induction s generalizing t with
  | nil =>
    cases t with
    | nil => exact ⟨rfl, List.tail_eq_of_cons_eq h⟩
    | cons d t =>
      rw [List.flatMap_cons, List.append_assoc] at h
      exact absurd h.symm (hform d).append_ne
  | cons c s ih =>
    cases t with
    | nil =>
      rw [List.flatMap_cons, List.append_assoc] at h
      exact absurd h (hform c).append_ne
    | cons d t =>
      simp only [List.flatMap_cons, List.append_assoc] at h
      obtain ⟨rfl, htail⟩ := (hform c).append_inj (hform d) h
      obtain ⟨rfl, hrest⟩ := ih htail
      exact ⟨rfl, hrest⟩

/-- Quoted text determines what it quotes and what follows it. -/
theorem quoteOnto_inj (h : quoteOnto s rest = quoteOnto t rest') : s = t ∧ rest = rest' :=
  Escapes.flatMap_append_inj escapes_escape (List.tail_eq_of_cons_eq h)

end XPathSyntax.Text
