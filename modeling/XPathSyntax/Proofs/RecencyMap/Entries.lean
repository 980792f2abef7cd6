import XPathSyntax.RecencyMap

/-! What the operations of a map do to its entries. An entry that is used goes to the back and the
others stay as they stood, unless the first of them has to go for a new one. -/

namespace XPathSyntax.RecencyMap

variable {κ ν : Type}

def keys (m : RecencyMap κ ν) : List κ :=
  m.entries.map Prod.fst

theorem length_keys (m : RecencyMap κ ν) : m.keys.length = m.size :=
  List.length_map _

variable {m : RecencyMap κ ν} {key : κ} {value : ν} {entry : κ × ν}

theorem keys_eq_cons {others : List (κ × ν)} (h : m.entries = entry :: others) :
    m.keys = entry.1 :: others.map Prod.fst := by
  rw [keys, h, List.map_cons]

def replaceFirst (m : RecencyMap κ ν) (key : κ) (value : ν) : RecencyMap κ ν :=
  { m with entries := m.entries.tail ++ [(key, value)] }

theorem mem_replaceFirst (h : entry ∈ (m.replaceFirst key value).entries) :
    entry ∈ m.entries ∨ entry = (key, value) := by
  rw [replaceFirst, List.mem_append, List.mem_singleton] at h
  exact h.imp_left List.mem_of_mem_tail

variable [BEq κ]

theorem get_of_some (h : m.find? key = some value) :
    m.get key = (some value, m.place key value) := by
  simp [get, h]

theorem get_of_none (h : m.find? key = none) : m.get key = (none, m) := by
  simp [get, h]

theorem get_fst (m : RecencyMap κ ν) (key : κ) : (m.get key).1 = m.find? key := by
  cases h : m.find? key with
  | some value => rw [get_of_some h]
  | none => rw [get_of_none h]

theorem find?_eq_none (h : m.contains key = false) : m.find? key = none := by
  simpa [contains] using h

theorem contains_of_find? (h : m.find? key = some value) : m.contains key = true := by
  rw [contains, h, Option.isSome_some]

theorem keys_place (m : RecencyMap κ ν) (key : κ) (value : ν) :
    (m.place key value).keys = m.keys.filter (· != key) ++ [key] := by
  simp [keys, place, others, List.filter_map, Function.comp_def, bne]

theorem size_place_le (m : RecencyMap κ ν) (key : κ) (value : ν) :
    (m.place key value).size ≤ m.size + 1 := by
  rw [← length_keys, ← length_keys, keys_place, List.length_append]
  exact Nat.succ_le_succ (List.length_filter_le _ _)

inductive Inserts (m : RecencyMap κ ν) (key : κ) (value : ν) :
    Option (κ × ν) × RecencyMap κ ν → Prop where
  | refused : m.capacity = 0 → Inserts m key value (none, m)
  | placed : m.capacity ≠ 0 → m.contains key = true ∨ m.size < m.capacity →
      Inserts m key value (none, m.place key value)
  | evicting : m.capacity ≠ 0 → m.contains key = false → m.capacity ≤ m.size →
      Inserts m key value (m.entries.head?, m.replaceFirst key value)

theorem inserts_insert (m : RecencyMap κ ν) (key : κ) (value : ν) :
    Inserts m key value (m.insert key value) := by
  unfold insert
  split
  next h0 => exact .refused h0
  next h0 =>
    split
    next hc => exact .placed h0 (.inl hc)
    next hc =>
      split
      next hs => exact .placed h0 (.inr hs)
      next hs => exact .evicting h0 (by simpa using hc) (Nat.le_of_not_lt hs)

theorem Inserts.capacity_eq {result : Option (κ × ν) × RecencyMap κ ν}
    (h : Inserts m key value result) : result.2.capacity = m.capacity := by
  cases h <;> rfl

/-- Nothing is pushed out for a key that is there, nor where there is room. -/
theorem of_insert_eq_none {after : RecencyMap κ ν} (h : m.insert key value = (none, after))
    (hcapacity : m.capacity ≠ 0) : after = m.place key value := by
  have inserts := inserts_insert m key value
  rw [h] at inserts
  generalize hnone : none = evicted at inserts
  cases inserts with
  | refused hzero => exact absurd hzero hcapacity
  | placed => rfl
  | evicting _ _ hfull =>
    rw [eq_comm, List.head?_eq_none_iff] at hnone
    rw [size, hnone] at hfull
    exact absurd (Nat.le_zero.1 hfull) hcapacity

/-- What is pushed out is the first entry, and for a new key. -/
theorem of_insert_eq_some {after : RecencyMap κ ν} (h : m.insert key value = (some entry, after)) :
    m.contains key = false ∧ (∃ others, m.entries = entry :: others) ∧
      after = m.replaceFirst key value := by
  have inserts := inserts_insert m key value
  rw [h] at inserts
  generalize hsome : some entry = evicted at inserts
  cases inserts with
  | refused | placed => cases hsome
  | evicting _ habsent => exact ⟨habsent, List.head?_eq_some_iff.1 hsome.symm, rfl⟩

theorem capacity_get (m : RecencyMap κ ν) (key : κ) : (m.get key).2.capacity = m.capacity := by
  unfold get
  split <;> rfl

variable [LawfulBEq κ]

theorem contains_iff : m.contains key = true ↔ key ∈ m.keys := by
  simp [contains, find?, List.lookup_isSome_iff, keys]

theorem contains_eq_false_iff : m.contains key = false ↔ key ∉ m.keys := by
  rw [← contains_iff, Bool.not_eq_true]

theorem contains_place {k : κ} :
    (m.place key value).contains k = true ↔ m.contains k = true ∨ k = key := by
  by_cases h : k = key <;> simp [contains_iff, keys_place, h]

theorem mem_of_find? (h : m.find? key = some value) : (key, value) ∈ m.entries := by
  obtain ⟨before, after, hm, -⟩ := List.lookup_eq_some_iff.1 h
  rw [hm]
  exact List.mem_append_right _ List.mem_cons_self

theorem exists_entries_of_contains (h : m.contains key = true) :
    ∃ front old back, m.entries = front ++ (key, old) :: back := by
  obtain ⟨entry, hmem, rfl⟩ := List.mem_map.1 (contains_iff.1 h)
  obtain ⟨front, back, hentries⟩ := List.append_of_mem hmem
  exact ⟨front, entry.2, back, hentries⟩

theorem find?_of_entries (hnodup : m.keys.Nodup) {front back : List (κ × ν)}
    (h : m.entries = front ++ (key, value) :: back) : m.find? key = some value := by
  rw [keys, h, List.map_append, List.nodup_append] at hnodup
  refine List.lookup_eq_some_iff.2 ⟨front, back, h, fun entry hentry => ?_⟩
  have hne := hnodup.2.2 entry.1 (List.mem_map_of_mem hentry) key (by simp)
  simpa using hne.symm

theorem others_of_absent (h : m.contains key = false) : m.others key = m.entries := by
  rw [others, List.filter_eq_self]
  intro entry hentry
  have hne : entry.1 ≠ key := by
    rintro rfl
    exact contains_eq_false_iff.1 h (List.mem_map_of_mem hentry)
  simpa using hne

theorem entries_place_of_absent (h : m.contains key = false) (value : ν) :
    (m.place key value).entries = m.entries ++ [(key, value)] := by
  rw [place, others_of_absent h]

/-- An entry that is there only changes its place. -/
theorem size_place_of_contains (hkeys : m.keys.Nodup) (h : m.contains key = true) (value : ν) :
    (m.place key value).size = m.size := by
  have hmem := contains_iff.1 h
  have hpos := List.length_pos_of_mem hmem
  rw [← length_keys, ← length_keys, keys_place, List.length_append, ← hkeys.erase_eq_filter,
    List.length_erase_of_mem hmem, List.length_singleton]
  omega

/-- To use a key never makes a map smaller. -/
theorem size_le_size_place (hkeys : m.keys.Nodup) (key : κ) (value : ν) :
    m.size ≤ (m.place key value).size := by
  cases h : m.contains key with
  | true => exact Nat.le_of_eq (size_place_of_contains hkeys h value).symm
  | false =>
    rw [size, size, entries_place_of_absent h, List.length_append]
    exact Nat.le_add_right _ _

/-- The other entries keep their order. -/
theorem entries_place {before after : List (κ × ν)} {old : ν} (hkeys : m.keys.Nodup)
    (h : m.entries = before ++ (key, old) :: after) :
    (m.place key value).entries = before ++ after ++ [(key, value)] := by
  rw [keys, h, List.map_append, List.map_cons] at hkeys
  obtain ⟨hother, -⟩ := List.nodup_cons.1 (List.perm_middle.nodup_iff.1 hkeys)
  rw [← List.map_append] at hother
  have hkept : (before ++ after).filter (fun entry => !(entry.1 == key)) = before ++ after := by
    rw [List.filter_eq_self]
    intro entry hentry
    have hne : entry.1 ≠ key := by
      rintro rfl
      exact hother (List.mem_map.2 ⟨entry, hentry, rfl⟩)
    simpa using hne
  rw [List.filter_append] at hkept
  simp [place, others, h, ← hkept]

theorem mem_place (h : entry ∈ (m.place key value).entries) :
    entry ∈ m.entries ∧ entry.1 ≠ key ∨ entry = (key, value) := by
  simpa [place, others] using h

theorem mem_of_mem_insert (h : entry ∈ (m.insert key value).2.entries) :
    entry ∈ m.entries ∨ entry = (key, value) := by
  cases hresult : m.insert key value with
  | mk evicted after =>
    have inserts := inserts_insert m key value
    rw [hresult] at inserts h
    cases inserts with
    | refused => exact .inl h
    | placed => exact (mem_place h).imp_left And.left
    | evicting => exact mem_replaceFirst h

end XPathSyntax.RecencyMap
