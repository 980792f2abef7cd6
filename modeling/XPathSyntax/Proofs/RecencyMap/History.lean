import Mathlib.Data.Finset.Card
import XPathSyntax.Proofs.RecencyMap.Entries

/-! What a map remembers of its history. The uses since the map was last cleared, the latest first,
determine its entries: they are those of the keys used last, as many as there is room for, in the
order of their last uses and with the values of their last insertions. -/

namespace XPathSyntax.RecencyMap

variable {κ ν : Type}

inductive Operation (κ ν : Type) where
  | get (key : κ)
  | insert (key : κ) (value : ν)
  | contains (key : κ)
  | clear

/-- To use a key is to insert it, or to look it up and find it. -/
inductive Use (κ ν : Type) where
  | insertion (key : κ) (value : ν)
  | hit (key : κ)

def Use.key : Use κ ν → κ
  | insertion key _ | hit key => key

section

variable [BEq κ]

def apply (m : RecencyMap κ ν) : Operation κ ν → RecencyMap κ ν
  | .get key => (m.get key).2
  | .insert key value => (m.insert key value).2
  | .contains _ => m
  | .clear => m.clear

/-- The uses since the last clear, the latest first, after an operation on the map. -/
def record (m : RecencyMap κ ν) (uses : List (Use κ ν)) : Operation κ ν → List (Use κ ν)
  | .get key => if (m.get key).1.isSome then .hit key :: uses else uses
  | .insert key value => .insertion key value :: uses
  | .contains _ => uses
  | .clear => []

def run (m : RecencyMap κ ν) (uses : List (Use κ ν)) :
    List (Operation κ ν) → RecencyMap κ ν × List (Use κ ν)
  | [] => (m, uses)
  | op :: ops => run (m.apply op) (m.record uses op) ops

def lastInserted (key : κ) : List (Use κ ν) → Option ν
  | [] => none
  | .insertion k value :: uses => if k == key then some value else lastInserted key uses
  | .hit _ :: uses => lastInserted key uses

def usedSince (key : κ) (used : List κ) : List κ :=
  used.takeWhile (· != key)

def recency : List κ → List κ
  | [] => []
  | key :: used => (recency used).filter (· != key) ++ [key]

end

section

variable [BEq κ] [LawfulBEq κ] {key k : κ} {used : List κ}

theorem mem_recency : k ∈ recency used ↔ k ∈ used := by
  induction used with
  | nil => simp [recency]
  | cons key used ih =>
    by_cases h : k = key
    · simp [recency, h]
    · simp [recency, h, ih]

theorem nodup_recency (used : List κ) : (recency used).Nodup := by
  induction used with
  | nil => exact List.nodup_nil
  | cons key used ih =>
    refine List.nodup_append.2 ⟨ih.sublist List.filter_sublist, by simp, ?_⟩
    intro k hk l hl
    simp_all

theorem usedSince_cons_self (key : κ) (used : List κ) : usedSince key (key :: used) = [] := by
  simp [usedSince]

theorem usedSince_cons_of_ne (h : k ≠ key) (used : List κ) :
    usedSince key (k :: used) = k :: usedSince key used := by
  simp [usedSince, h]

/-- Of two keys, only one has been used since the last use of the other. -/
theorem not_mem_usedSince (h : k ∈ usedSince key used) : key ∉ usedSince k used := by
  induction used with
  | nil => cases h
  | cons l used ih =>
    by_cases hkey : l = key
    · subst hkey
      simp [usedSince_cons_self] at h
    · by_cases hk : l = k
      · subst hk
        simp [usedSince_cons_self]
      · rw [usedSince_cons_of_ne hkey, List.mem_cons] at h
        rw [usedSince_cons_of_ne hk, List.mem_cons]
        rintro (he | hmem)
        · exact hkey he.symm
        · exact ih (h.resolve_left fun he => hk he.symm) hmem

/-- Of two keys, the one further back has been used since the last use of the other. -/
theorem pairwise_recency (used : List κ) :
    (recency used).Pairwise fun a b => b ∈ usedSince a used := by
  induction used with
  | nil => exact .nil
  | cons key used ih =>
    have later {k l : κ} (hk : k ≠ key) (h : l = key ∨ l ∈ usedSince k used) :
        l ∈ usedSince k (key :: used) := by
      rw [usedSince_cons_of_ne hk.symm]
      exact List.mem_cons.2 h
    refine List.pairwise_append.2 ⟨?_, List.pairwise_singleton _ _, ?_⟩
    · refine (ih.filter _).imp_of_mem ?_
      intro k l hk _ hl
      exact later (by simpa using (List.mem_filter.1 hk).2) (.inr hl)
    · intro k hk l hl
      exact later (by simpa using (List.mem_filter.1 hk).2) (.inl (List.mem_singleton.1 hl))

/-- Behind a key stand those that have been used since its last use. -/
theorem mem_usedSince_iff {before after : List κ} (h : recency used = before ++ key :: after) :
    k ∈ usedSince key used ↔ k ∈ after := by
  have order := pairwise_recency used
  rw [h, List.pairwise_append, List.pairwise_cons] at order
  obtain ⟨-, ⟨hafter, -⟩, hbefore⟩ := order
  constructor
  · intro hk
    have hmem : k ∈ recency used := mem_recency.2 (List.takeWhile_subset _ hk)
    rw [h, List.mem_append, List.mem_cons] at hmem
    rcases hmem with hmem | rfl | hmem
    · exact absurd (hbefore k hmem key List.mem_cons_self) (not_mem_usedSince hk)
    · exact absurd hk (not_mem_usedSince hk)
    · exact hmem
  · exact hafter k

end

/-- The entries are those of the last uses: what has been forgotten has been used before, and there
was no room for it. -/
structure Remembers [BEq κ] (m : RecencyMap κ ν) (uses : List (Use κ ν)) : Prop where
  recency_eq : ∃ forgotten, recency (uses.map Use.key) = forgotten ++ m.keys ∧
    (forgotten = [] ∨ m.size = m.capacity)
  size_le : m.size ≤ m.capacity
  lastInserted_eq : ∀ entry ∈ m.entries, lastInserted entry.1 uses = some entry.2

section

variable [BEq κ] {m : RecencyMap κ ν} {uses : List (Use κ ν)} {key : κ} {value : ν}

theorem remembers_of_nil (h : m.entries = []) : Remembers m [] where
  recency_eq := ⟨[], by simp [recency, keys, h], .inl rfl⟩
  size_le := by simp [size, h]
  lastInserted_eq := by simp [h]

theorem capacity_apply (m : RecencyMap κ ν) (op : Operation κ ν) :
    (m.apply op).capacity = m.capacity := by
  cases op with
  | get key => exact m.capacity_get key
  | insert key value => exact (inserts_insert m key value).capacity_eq
  | contains key => rfl
  | clear => rfl

theorem capacity_run (m : RecencyMap κ ν) (uses : List (Use κ ν)) (ops : List (Operation κ ν)) :
    (m.run uses ops).1.capacity = m.capacity := by
  induction ops generalizing m uses with
  | nil => rfl
  | cons op ops ih => exact (ih _ _).trans (m.capacity_apply op)

/-- What is returned when an entry is pushed out. -/
theorem Remembers.insert_eq_some_iff (h : Remembers m uses) {entry : κ × ν} :
    (m.insert key value).1 = some entry ↔
      m.contains key = false ∧ 0 < m.capacity ∧ m.size = m.capacity ∧
        m.entries.head? = some entry := by
  have hsize := h.size_le
  cases hresult : m.insert key value with
  | mk evicted after =>
    have inserts := inserts_insert m key value
    rw [hresult] at inserts
    cases inserts with
    | refused hzero => simp [hzero]
    | placed _ hroom =>
      constructor
      · intro he
        cases he
      · rintro ⟨habsent, -, hfull, -⟩
        rcases hroom with hmem | hroom
        · exact absurd hmem (by simp [habsent])
        · omega
    | evicting hcapacity habsent hfull =>
      have hcount := Nat.le_antisymm hsize hfull
      simp [habsent, hcount, Nat.pos_of_ne_zero hcapacity]

variable [LawfulBEq κ]

theorem Remembers.nodup_keys (h : Remembers m uses) : m.keys.Nodup := by
  obtain ⟨forgotten, hrecency, -⟩ := h.recency_eq
  have := nodup_recency (uses.map Use.key)
  rw [hrecency] at this
  exact (List.nodup_append.1 this).2.1

/-- A key that is used goes to the back, if it is there or there is room for it. -/
theorem Remembers.place (h : Remembers m uses) (use : Use κ ν) (hkey : use.key = key)
    (hvalue : lastInserted key (use :: uses) = some value)
    (hothers : ∀ k, k ≠ key → lastInserted k (use :: uses) = lastInserted k uses)
    (hroom : m.contains key = true ∨ m.size < m.capacity) :
    Remembers (m.place key value) (use :: uses) := by
  have hsize := h.size_le
  obtain ⟨forgotten, hrecency, hforgotten⟩ := h.recency_eq
  refine ⟨⟨forgotten.filter (· != key), ?_, ?_⟩, ?_, ?_⟩
  · rw [List.map_cons, hkey, recency, hrecency, List.filter_append, List.append_assoc, keys_place]
  · rcases hforgotten with rfl | hfull
    · exact .inl rfl
    · have hmem := hroom.resolve_right (by omega)
      exact .inr ((size_place_of_contains h.nodup_keys hmem value).trans hfull)
  · rcases hroom with hmem | hroom
    · rw [size_place_of_contains h.nodup_keys hmem value]
      exact hsize
    · exact Nat.le_trans (size_place_le m key value) hroom
  · intro entry hentry
    rcases mem_place hentry with ⟨hentry, hne⟩ | rfl
    · rw [hothers _ hne]
      exact h.lastInserted_eq entry hentry
    · exact hvalue

/-- A new key takes the room of the first entry where there is no other. -/
theorem Remembers.replaceFirst (h : Remembers m uses) (hcapacity : m.capacity ≠ 0)
    (habsent : m.contains key = false) (hfull : m.capacity ≤ m.size) :
    Remembers (m.replaceFirst key value) (.insertion key value :: uses) := by
  have hsize := h.size_le
  have hnot : key ∉ m.keys := by
    rw [← contains_iff, habsent]
    exact Bool.false_ne_true
  obtain ⟨forgotten, hrecency, -⟩ := h.recency_eq
  obtain ⟨first, others, hentries⟩ : ∃ first others, m.entries = first :: others := by
    apply List.exists_cons_of_ne_nil
    rintro hnil
    rw [size, hnil] at hfull
    exact hcapacity (Nat.le_zero.1 hfull)
  have hkeys : m.keys = first.1 :: others.map Prod.fst := by rw [keys, hentries, List.map_cons]
  have hkept : m.keys.filter (· != key) = m.keys := by
    rw [List.filter_eq_self]
    intro k hk
    rw [bne_iff_ne]
    rintro rfl
    exact hnot hk
  have hlength : (m.replaceFirst key value).size = m.size := by
    simp [RecencyMap.replaceFirst, size, hentries]
  refine ⟨⟨forgotten.filter (· != key) ++ [first.1], ?_, .inr ?_⟩, ?_, ?_⟩
  · rw [List.map_cons, Use.key, recency, hrecency, List.filter_append, hkept, hkeys]
    simp [RecencyMap.replaceFirst, keys, hentries]
  · rw [hlength]
    exact Nat.le_antisymm hsize hfull
  · rw [hlength]
    exact hsize
  · intro entry hentry
    rcases mem_replaceFirst hentry with hmem | rfl
    · have hne : key ≠ entry.1 := by
        rintro rfl
        exact hnot (List.mem_map_of_mem hmem)
      rw [lastInserted, if_neg (by simpa using hne)]
      exact h.lastInserted_eq entry hmem
    · simp [lastInserted]

theorem Remembers.insert (h : Remembers m uses) (key : κ) (value : ν) :
    Remembers (m.insert key value).2 (.insertion key value :: uses) := by
  cases hresult : m.insert key value with
  | mk evicted after =>
    have inserts := inserts_insert m key value
    rw [hresult] at inserts
    cases inserts with
    | refused hzero =>
      have hsize : m.size = 0 := Nat.le_zero.1 (hzero ▸ h.size_le)
      have hnil : m.entries = [] := List.length_eq_zero_iff.1 hsize
      refine ⟨⟨recency (key :: uses.map Use.key), ?_, .inr ?_⟩, h.size_le, ?_⟩
      · simp [keys, hnil, Use.key]
      · exact hsize.trans hzero.symm
      · simp [hnil]
    | placed _ hroom =>
      refine h.place _ rfl (by simp [lastInserted]) ?_ hroom
      intro k hk
      rw [lastInserted, if_neg (by simpa using hk.symm)]
    | evicting hcapacity habsent hfull => exact h.replaceFirst hcapacity habsent hfull

theorem Remembers.get (h : Remembers m uses) (key : κ) :
    Remembers (m.get key).2 (m.record uses (.get key)) := by
  cases hfind : m.find? key with
  | none =>
    rw [record, get_of_none hfind]
    exact h
  | some value =>
    rw [record, get_of_some hfind]
    refine h.place (.hit key) rfl ?_ ?_ ?_
    · exact h.lastInserted_eq _ (mem_of_find? hfind)
    · intro k _
      rfl
    · exact .inl (by rw [contains, hfind, Option.isSome_some])

/-- What a map remembers after an operation. -/
theorem Remembers.apply (h : Remembers m uses) (op : Operation κ ν) :
    Remembers (m.apply op) (m.record uses op) := by
  cases op with
  | get key => exact h.get key
  | insert key value => exact h.insert key value
  | contains key => exact h
  | clear => exact remembers_of_nil rfl

theorem Remembers.run (h : Remembers m uses) (ops : List (Operation κ ν)) :
    Remembers (m.run uses ops).1 (m.run uses ops).2 := by
  induction ops generalizing m uses with
  | nil => exact h
  | cons op ops ih => exact ih (h.apply op)

end

section

variable [DecidableEq κ] {m : RecencyMap κ ν} {uses : List (Use κ ν)} {key : κ}

/-- The number of keys used since the last use of a key is that of the keys behind it. -/
theorem card_usedSince {used before after : List κ} (h : recency used = before ++ key :: after) :
    (usedSince key used).toFinset.card = after.length := by
  have hnodup := nodup_recency used
  rw [h, List.nodup_append, List.nodup_cons] at hnodup
  have hsame : (usedSince key used).toFinset = after.toFinset :=
    List.toFinset.ext fun _ => mem_usedSince_iff h
  rw [hsame, List.toFinset_card_of_nodup hnodup.2.1.2]

theorem Remembers.contains_iff (h : Remembers m uses) :
    m.contains key = true ↔
      key ∈ uses.map Use.key ∧ (usedSince key (uses.map Use.key)).toFinset.card < m.capacity := by
  have hsize := h.size_le
  obtain ⟨forgotten, hrecency, hforgotten⟩ := h.recency_eq
  have hused : key ∈ uses.map Use.key ↔ key ∈ forgotten ++ m.keys := by
    rw [← hrecency, mem_recency]
  rw [RecencyMap.contains_iff, hused]
  constructor
  · intro hmem
    obtain ⟨before, after, hkeys⟩ := List.append_of_mem hmem
    have hlength := length_keys m
    rw [hkeys, ← List.append_assoc] at hrecency
    rw [hkeys] at hlength
    simp at hlength
    refine ⟨List.mem_append_right _ hmem, ?_⟩
    rw [card_usedSince hrecency]
    omega
  · rintro ⟨hmem, hcard⟩
    refine (List.mem_append.1 hmem).resolve_left fun hmem => ?_
    obtain ⟨before, after, rfl⟩ := List.append_of_mem hmem
    have hfull := hforgotten.resolve_left (by simp)
    rw [List.append_assoc, List.cons_append] at hrecency
    rw [card_usedSince hrecency, List.length_append, length_keys] at hcard
    omega

/-- A map keeps the keys used last, as many as it has room for. After any operations, the uses
since the last clear tell which keys are there, with which values and in which order; an insertion
pushes out the first entry of a full map, and what is not found changes nothing. -/
theorem keeps_last_used (capacity : Nat) (ops : List (Operation κ ν)) :
    let m := (run (.empty capacity) [] ops).1
    let uses := (run (.empty capacity) [] ops).2
    let used := uses.map Use.key
    (∀ key, m.contains key = true ↔
      key ∈ used ∧ (usedSince key used).toFinset.card < capacity) ∧
    (∀ key value, (key, value) ∈ m.entries →
      lastInserted key uses = some value ∧ (m.get key).1 = some value) ∧
    (m.keys.Pairwise fun a b => b ∈ usedSince a used) ∧ m.keys.Nodup ∧ m.size ≤ capacity ∧
    (∀ key value entry, (m.insert key value).1 = some entry ↔
      m.contains key = false ∧ 0 < capacity ∧ m.size = capacity ∧
        m.entries.head? = some entry) ∧
    ∀ key, m.apply (.contains key) = m ∧ (m.contains key = false → m.get key = (none, m)) := by
  intro m uses used
  have h : Remembers m uses := (remembers_of_nil rfl).run ops
  have hcapacity : m.capacity = capacity := capacity_run _ _ ops
  have hpairwise := pairwise_recency used
  obtain ⟨forgotten, hrecency, -⟩ := h.recency_eq
  rw [hrecency] at hpairwise
  rw [← hcapacity]
  refine ⟨fun key => h.contains_iff, ?_, (List.pairwise_append.1 hpairwise).2.1, h.nodup_keys,
    h.size_le, fun key value entry => h.insert_eq_some_iff, ?_⟩
  · intro key value hmem
    have hlast := h.lastInserted_eq _ hmem
    refine ⟨hlast, ?_⟩
    have hcontains : m.contains key = true := RecencyMap.contains_iff.2 (List.mem_map_of_mem hmem)
    obtain ⟨found, hfound⟩ := Option.isSome_iff_exists.1 hcontains
    have := h.lastInserted_eq _ (mem_of_find? hfound)
    rw [get_of_some hfound, ← this, hlast]
  · intro key
    exact ⟨rfl, fun habsent => get_of_none (find?_eq_none habsent)⟩

example : (run (.empty 2) [] [.insert 1 'a', .insert 2 'b', .get 1, .insert 3 'c']).1.entries =
    [(1, 'a'), (3, 'c')] := by
  decide

end

end XPathSyntax.RecencyMap
