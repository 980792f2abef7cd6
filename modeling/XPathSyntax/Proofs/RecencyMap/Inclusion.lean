import XPathSyntax.Proofs.RecencyMap.History

/-! More room never does worse. After the same operations, what is in a map is in a map with more
room too, with the same value and in the same order. A key that is found in the larger map alone
moves there, in between the keys of the smaller map, so the two do not agree from the back on; but
the smaller map has no entry that the larger one lacks, and as long as it has room both are the
same, so the larger map never drops what the smaller one keeps. -/

namespace XPathSyntax.RecencyMap

variable {κ ν : Type}

/-- The entries of the smaller map are some of those of the larger one, in the same order, and all
of them until the smaller map is full. -/
structure Within (few many : RecencyMap κ ν) : Prop where
  capacity_le : few.capacity ≤ many.capacity
  sublist : few.entries.Sublist many.entries
  eq_of_room : few.size < few.capacity → few.entries = many.entries

namespace Within

variable {few many : RecencyMap κ ν} {key : κ} {value : ν}

theorem of_nil (h : few.capacity ≤ many.capacity) (hfew : few.entries = [])
    (hmany : many.entries = []) : Within few many where
  capacity_le := h
  sublist := by rw [hfew]; exact List.nil_sublist _
  eq_of_room _ := hfew.trans hmany.symm

theorem keys_sublist (h : Within few many) : few.keys.Sublist many.keys :=
  h.sublist.map _

/-- The smaller map is full, and gives up its first entry for the new one. -/
theorem replaceFirst_left (h : Within few many) (hfull : few.capacity ≤ few.size)
    {kept : List (κ × ν)} (hkept : few.entries.tail.Sublist kept) :
    Within (few.replaceFirst key value) { many with entries := kept ++ [(key, value)] } where
  capacity_le := h.capacity_le
  sublist := hkept.append (List.Sublist.refl _)
  eq_of_room hroom := by
    simp only [size, replaceFirst, List.length_append, List.length_tail,
      List.length_singleton] at hroom hfull
    omega

section

variable [BEq κ] [LawfulBEq κ]

theorem find?_eq_some (h : Within few many) (hkeys : many.keys.Nodup)
    (hfind : few.find? key = some value) : many.find? key = some value := by
  obtain ⟨front, back, hentries⟩ := List.append_of_mem (h.sublist.subset (mem_of_find? hfind))
  exact find?_of_entries hkeys hentries

theorem contains (h : Within few many) (hfew : few.contains key = true) :
    many.contains key = true :=
  contains_iff.2 (h.keys_sublist.subset (contains_iff.1 hfew))

/-- The key is used in both maps. -/
theorem place (h : Within few many) (hkeys : many.keys.Nodup) (key : κ) (value : ν) :
    Within (few.place key value) (many.place key value) where
  capacity_le := h.capacity_le
  sublist := (h.sublist.filter _).append (List.Sublist.refl _)
  eq_of_room hroom := by
    have hsize := size_le_size_place (hkeys.sublist h.keys_sublist) key value
    have hsame := h.eq_of_room (Nat.lt_of_le_of_lt hsize hroom)
    simp only [RecencyMap.place, others, hsame]

/-- What stands in the smaller map stays in the larger one when another key is used there. -/
theorem sublist_others (h : Within few many) (habsent : few.contains key = false) :
    few.entries.Sublist (many.others key) := by
  rw [← others_of_absent habsent]
  exact h.sublist.filter _

/-- The key is found in the larger map alone. -/
theorem place_right (h : Within few many) (habsent : few.contains key = false)
    (hmany : many.contains key = true) (value : ν) : Within few (many.place key value) where
  capacity_le := h.capacity_le
  sublist := (h.sublist_others habsent).trans (List.sublist_append_left _ _)
  eq_of_room hroom := by
    rw [contains_iff, keys, ← h.eq_of_room hroom] at hmany
    exact absurd hmany (contains_eq_false_iff.1 habsent)

theorem get (h : Within few many) (hkeys : many.keys.Nodup) (key : κ) :
    Within (few.get key).2 (many.get key).2 := by
  cases hfew : few.find? key with
  | some value =>
    rw [get_of_some hfew, get_of_some (h.find?_eq_some hkeys hfew)]
    exact h.place hkeys key value
  | none =>
    rw [get_of_none hfew]
    cases hmany : many.find? key with
    | none =>
      rw [get_of_none hmany]
      exact h
    | some value =>
      rw [get_of_some hmany]
      exact h.place_right (by simp [RecencyMap.contains, hfew]) (contains_of_find? hmany) value

theorem insert (h : Within few many) (hkeys : many.keys.Nodup) (hsize : few.size ≤ few.capacity)
    (key : κ) (value : ν) : Within (few.insert key value).2 (many.insert key value).2 := by
  have hle := h.capacity_le
  generalize hfew : few.insert key value = left
  generalize hmany : many.insert key value = right
  have inserts := hfew ▸ inserts_insert few key value
  have inserts' := hmany ▸ inserts_insert many key value
  cases inserts with
  | refused hzero =>
    have hnil : few.entries = [] := List.length_eq_zero_iff.1 (Nat.le_zero.1 (hzero ▸ hsize))
    refine ⟨?_, ?_, ?_⟩
    · rw [inserts'.capacity_eq]
      exact hle
    · rw [hnil]
      exact List.nil_sublist _
    · intro hroom
      exact absurd hroom (by simp [hzero])
  | placed hcapacity hplace =>
    cases inserts' with
    | refused hzero => omega
    | placed => exact h.place hkeys key value
    | evicting _ habsent hfull =>
      -- the smaller map has neither the key nor room for it
      rcases hplace with hcontains | hroom
      · rw [h.contains hcontains] at habsent
        cases habsent
      · have hsame := congrArg List.length (h.eq_of_room hroom)
        rw [← size, ← size] at hsame
        omega
  | evicting hcapacity habsent hfull =>
    cases inserts' with
    | refused hzero => omega
    | placed =>
      exact h.replaceFirst_left hfull ((List.tail_sublist _).trans (h.sublist_others habsent))
    | evicting => exact h.replaceFirst_left hfull h.sublist.tail

theorem apply (h : Within few many) (hkeys : many.keys.Nodup) (hsize : few.size ≤ few.capacity)
    (op : Operation κ ν) : Within (few.apply op) (many.apply op) := by
  cases op with
  | get key => exact h.get hkeys key
  | insert key value => exact h.insert hkeys hsize key value
  | contains key => exact h
  | clear => exact .of_nil h.capacity_le rfl rfl

theorem run {uses uses' : List (Use κ ν)} (h : Within few many) (hfew : Remembers few uses)
    (hmany : Remembers many uses') (ops : List (Operation κ ν)) :
    Within (few.run uses ops).1 (many.run uses' ops).1 := by
  induction ops generalizing few many uses uses' with
  | nil => exact h
  | cons op ops ih =>
    exact ih (h.apply hmany.nodup_keys hfew.size_le op) (hfew.apply op) (hmany.apply op)

/-- The larger map holds the keys of the smaller one in the same order. -/
theorem filter_keys (h : Within few many) (hkeys : many.keys.Nodup) :
    many.keys.filter few.contains = few.keys := by
  have hall : few.keys.filter few.contains = few.keys :=
    List.filter_eq_self.2 fun _ hk => contains_iff.2 hk
  have hsublist := h.keys_sublist.filter few.contains
  rw [hall] at hsublist
  have hsubset : many.keys.filter few.contains ⊆ few.keys := fun _ hk =>
    contains_iff.1 (List.mem_filter.1 hk).2
  exact (hsublist.eq_of_length_le ((hkeys.filter _).subperm hsubset).length_le).symm

end

end Within

variable [BEq κ] [LawfulBEq κ]

/-- Of two maps that have seen the same operations, the one with more room holds every key of the
other, with the same value, and these keys in the same order; so it finds whatever the other one
finds. -/
theorem larger_never_does_worse {small large : Nat} (h : small ≤ large)
    (ops : List (Operation κ ν)) :
    let few := (run (.empty small) [] ops).1
    let many := (run (.empty large) [] ops).1
    (∀ key value, few.find? key = some value → many.find? key = some value) ∧
    many.keys.filter few.contains = few.keys ∧
    ∀ key value, (few.get key).1 = some value → (many.get key).1 = some value := by
  intro few many
  have hsmall : Remembers (.empty small : RecencyMap κ ν) [] := remembers_of_nil rfl
  have hlarge : Remembers (.empty large : RecencyMap κ ν) [] := remembers_of_nil rfl
  have within : Within few many := (Within.of_nil h rfl rfl).run hsmall hlarge ops
  have hkeys : many.keys.Nodup := (hlarge.run ops).nodup_keys
  refine ⟨fun key value => within.find?_eq_some hkeys, within.filter_keys hkeys, ?_⟩
  intro key value hget
  rw [get_fst] at hget ⊢
  exact within.find?_eq_some hkeys hget

/-- The key 0 is found in the larger map alone, and comes to stand between the keys of the smaller
one. -/
theorem larger_never_does_worse_behind_hit :
    let ops : List (Operation Nat Char) :=
      [.insert 0 'a', .insert 1 'b', .insert 2 'c', .get 0, .insert 1 'd']
    let few := (run (.empty 2) [] ops).1
    let many := (run (.empty 3) [] ops).1
    2 ≤ 3 ∧ few.keys = [2, 1] ∧ many.keys = [2, 0, 1] ∧ many.keys.filter few.contains = few.keys ∧
      many.find? 1 = some 'd' ∧ (many.get 2).1 = some 'c' := by
  intro ops few many
  obtain ⟨hfind, hkeys, hget⟩ := larger_never_does_worse (by decide : 2 ≤ 3) ops
  exact ⟨by decide, by decide, by decide, hkeys, hfind 1 'd' (by decide), hget 2 'c' (by decide)⟩

end XPathSyntax.RecencyMap
