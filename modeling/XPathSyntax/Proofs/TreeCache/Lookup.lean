import XPathSyntax.Proofs.TreeCache.Replay

/-! A look-up from end to end. A text that is remembered is not parsed again; any other one is
parsed once, and in the cache that is left by what is asked meanwhile, whatever that is. A failure
changes nothing in that cache, and a success puts one entry at its end. -/

namespace XPathSyntax

namespace RecencyMap

variable {κ ν : Type}

/-- From the entries of a map, those after an insertion, and the entry that it has pushed out. -/
inductive Stores (capacity : Nat) (key : κ) (value : ν) :
    List (κ × ν) → Option (κ × ν) → List (κ × ν) → Prop where
  | refused : capacity = 0 → Stores capacity key value [] none []
  | renewed {front back old} : capacity ≠ 0 →
      Stores capacity key value (front ++ (key, old) :: back) none
        (front ++ back ++ [(key, value)])
  | added {entries} : key ∉ entries.map Prod.fst → entries.length < capacity →
      Stores capacity key value entries none (entries ++ [(key, value)])
  | pushing {first others} : key ∉ (first :: others).map Prod.fst →
      (first :: others).length = capacity →
      Stores capacity key value (first :: others) (some first) (others ++ [(key, value)])

/-- Only a new key changes the number of entries. -/
theorem Stores.length_eq {capacity : Nat} {key : κ} {value : ν} {entries stored : List (κ × ν)}
    {evicted : Option (κ × ν)} (h : Stores capacity key value entries evicted stored)
    (hkey : key ∈ entries.map Prod.fst) : stored.length = entries.length := by
  cases h with
  | refused => cases hkey
  | renewed => simp
  | added habsent | pushing habsent => exact absurd hkey habsent

variable [BEq κ] [LawfulBEq κ] {m : RecencyMap κ ν} {uses : List (Use κ ν)} {key : κ} {value : ν}

theorem Remembers.stores (h : Remembers m uses) (key : κ) (value : ν) :
    Stores m.capacity key value m.entries (m.insert key value).1
      (m.insert key value).2.entries := by
  have hsize := h.size_le
  cases hresult : m.insert key value with
  | mk evicted after =>
    have inserts := inserts_insert m key value
    rw [hresult] at inserts
    cases inserts with
    | refused hzero =>
      have hnil : m.entries = [] := List.length_eq_zero_iff.1 (Nat.le_zero.1 (hzero ▸ hsize))
      rw [hnil]
      exact .refused hzero
    | placed hcapacity hroom =>
      cases hcontains : m.contains key with
      | true =>
        obtain ⟨front, old, back, hentries⟩ := exists_entries_of_contains hcontains
        rw [entries_place h.nodup_keys hentries, hentries]
        exact .renewed hcapacity
      | false =>
        rw [hcontains, or_iff_right Bool.false_ne_true] at hroom
        rw [entries_place_of_absent hcontains]
        exact .added (contains_eq_false_iff.1 hcontains) hroom
    | evicting hcapacity habsent hfull =>
      have hlength : m.entries.length = m.capacity := Nat.le_antisymm hsize hfull
      have habsent : key ∉ m.entries.map Prod.fst := contains_eq_false_iff.1 habsent
      rw [RecencyMap.replaceFirst]
      cases hentries : m.entries with
      | nil =>
        rw [hentries, List.length_nil] at hlength
        exact absurd hlength.symm hcapacity
      | cons first others =>
        rw [hentries] at habsent hlength
        exact .pushing habsent hlength

end RecencyMap

namespace TreeCache

variable {state : TreeCache} {history : List Request} {capacity : Nat} {limits : Limits}

theorem of_passes_empty (h : Passes (empty capacity limits) history state) :
    state.limits = limits ∧ state.trees.capacity = capacity ∧ ∃ log, Follows state log := by
  obtain ⟨moments, hsteps⟩ := steps_of_passes h
  exact ⟨hsteps.limits_eq, hsteps.capacity_eq, _, hsteps.follows (follows_empty capacity limits)⟩

/-- A text that is remembered is found and moves to the end. Any other one is parsed once, behind
what is asked meanwhile: an error leaves the cache as that has left it, and a tree is stored. -/
theorem parses_only_absent (h : Passes (empty capacity limits) history state) (text : String)
    (source : Source) (meanwhile : List Request) :
    let answered := state.answer (.lookup text source meanwhile)
    let before := state.answerAll meanwhile
    let entries := before.cache.trees.entries
    (∀ front tree back, state.trees.entries = front ++ (text, tree) :: back →
      answered = ⟨.tree (.ok tree) false [] state.size,
        ⟨limits, ⟨capacity, front ++ back ++ [(text, tree)]⟩⟩, [.hit text]⟩) ∧
    (text ∉ state.trees.keys → ∀ error, parseSource limits source = .error error →
      answered = ⟨.tree (.error error) true before.reply before.cache.size, before.cache,
        before.log ++ [.parseFailed error]⟩) ∧
    (text ∉ state.trees.keys → ∀ tree, parseSource limits source = .ok tree →
      ∃ evicted stored, RecencyMap.Stores capacity text tree entries evicted stored ∧
        (text ∈ before.cache.trees.keys → stored.length = before.cache.size) ∧
        answered = ⟨.tree (.ok tree) true before.reply stored.length, ⟨limits, ⟨capacity, stored⟩⟩,
          before.log ++
            .miss text tree.isNone :: (evicted.map fun entry => .eviction entry.1).toList⟩) := by
  intro answered before entries
  obtain ⟨hlimits, hcapacity, log, hfollows⟩ := of_passes_empty h
  have hsteps := steps_answerAll state meanwhile
  have hlimits' : before.cache.limits = limits := hsteps.limits_eq.trans hlimits
  have hcapacity' : before.cache.trees.capacity = capacity := hsteps.capacity_eq.trans hcapacity
  have hlookup (habsent : text ∉ state.trees.keys) :
      let settled := before.cache.settle text source
      answered = ⟨.tree settled.reply true before.reply settled.cache.size, settled.cache,
        before.log ++ settled.log⟩ := by
    have hfalse := RecencyMap.contains_eq_false_iff.2 habsent
    exact answer_of_absent (RecencyMap.find?_eq_none hfalse) source meanwhile
  refine ⟨?_, ?_, ?_⟩
  · intro front tree back hentries
    have hfind := RecencyMap.find?_of_entries hfollows.nodup_keys hentries
    have hcontains := RecencyMap.contains_of_find? hfind
    have hplace : { state with trees := state.trees.place text tree } =
        (⟨limits, ⟨capacity, front ++ back ++ [(text, tree)]⟩⟩ : TreeCache) := by
      rw [← RecencyMap.entries_place hfollows.nodup_keys hentries, ← hlimits, ← hcapacity]
      rfl
    rw [← hplace, size, ← RecencyMap.size_place_of_contains hfollows.nodup_keys hcontains tree]
    exact answer_of_found hfind source meanwhile
  · intro habsent error herror
    rw [← hlimits'] at herror
    rw [hlookup habsent, settle_of_error herror]
  · intro habsent tree htree
    obtain ⟨uses, huses, -⟩ := hsteps.follows hfollows
    have hstores := huses.stores text tree
    cases hinsert : before.cache.trees.insert text tree with
    | mk evicted trees =>
      rw [hinsert, hcapacity'] at hstores
      have hsettle : before.cache.settle text source = ⟨.ok tree, { before.cache with trees },
          .miss text tree.isNone :: (evicted.map fun entry => .eviction entry.1).toList⟩ := by
        rw [← hlimits'] at htree
        rw [settle_of_ok htree, store, hinsert]
      have htrees : trees.capacity = capacity := by
        have inserts := RecencyMap.inserts_insert before.cache.trees text tree
        rw [hinsert] at inserts
        exact inserts.capacity_eq.trans hcapacity'
      refine ⟨evicted, trees.entries, hstores, hstores.length_eq, ?_⟩
      rw [hlookup habsent, hsettle, ← htrees, ← hlimits']
      rfl

/-- What is asked meanwhile drops another text and stores the same one, which is then replaced. -/
theorem parses_only_absent_entered_meanwhile :
    let state := ((empty 1 {}).answerAll [.ofText "b"]).cache
    let meanwhile : List Request := [.clear, .lookup "a" (Source.ofText "2") []]
    let tree := some (Tree.step .child (.nameTest none "a"))
    Passes (empty 1 {}) [.ofText "b"] state ∧
      (state.answerAll meanwhile).cache.trees.entries = [("a", some (.integer "2"))] ∧
      (state.answer (.lookup "a" (Source.ofText "a") meanwhile)).cache =
        ⟨{}, ⟨1, [("a", tree)]⟩⟩ := by
  intro state meanwhile tree
  have hpasses : Passes (empty 1 {}) [.ofText "b"] state := passes_answerAll _ _
  have hentries : (state.answerAll meanwhile).cache.trees.entries =
      [("a", some (.integer "2"))] := by decide +kernel
  obtain ⟨-, -, hstored⟩ := parses_only_absent hpasses "a" (Source.ofText "a") meanwhile
  obtain ⟨evicted, stored, hstores, -, hanswered⟩ :=
    hstored (by decide +kernel) tree (by decide +kernel)
  refine ⟨hpasses, hentries, ?_⟩
  rw [hentries] at hstores
  rw [hanswered]
  generalize hbefore : [("a", some (Tree.integer "2"))] = entries at hstores
  cases hstores with
  | refused => cases hbefore
  | @renewed front =>
    cases front with
    | nil =>
      cases hbefore
      rfl
    | cons => simp at hbefore
  | added habsent => simp [← hbefore] at habsent
  | pushing habsent => simp [← hbefore] at habsent

end TreeCache
end XPathSyntax
