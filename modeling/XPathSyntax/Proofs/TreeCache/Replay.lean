import Mathlib.Data.List.DropRight
import XPathSyntax.Proofs.TreeCache.Steps

/-! The log of a cache tells what the cache holds. Since the last clear, the texts that were found
or stored are remembered in the order of their last report, as many as there is room for; a text is
there if it was stored after it was last pushed out. What is reported holds at the moment of the
report. -/

namespace XPathSyntax

def Event.lookedUp? : Event → Option String
  | .hit text | .miss text _ => some text
  | .parseFailed _ | .eviction _ => none

def Event.moves (text : String) : Event → Bool
  | .miss moved _ | .eviction moved => moved == text
  | .hit _ | .parseFailed _ => false

/-- The events since the last clear, behind those of `log` if there was none. -/
def eventsSince (log : List Event) : List (Option Event) → List Event
  | [] => log
  | some event :: rest => eventsSince (log ++ [event]) rest
  | none :: rest => eventsSince [] rest

theorem eventsSince_append (log : List Event) (first second : List (Option Event)) :
    eventsSince log (first ++ second) = eventsSince (eventsSince log first) second := by
  induction first generalizing log with
  | nil => rfl
  | cons event first ih => cases event <;> exact ih _

namespace TreeCache

variable {cache next last : TreeCache} {events : List (Option Event)} {moments : List Moment}
  {log : List Event} {text : String}

theorem map_event_mk (cache : TreeCache) (events : List (Option Event)) :
    (events.map (Moment.mk cache)).map Moment.event = events := by
  simp [Function.comp_def]

/-- The texts reported as found or stored are those that the map has used. -/
def Follows (cache : TreeCache) (log : List Event) : Prop :=
  ∃ uses, cache.trees.Remembers uses ∧
    uses.map RecencyMap.Use.key = (log.filterMap Event.lookedUp?).reverse

theorem follows_empty (capacity : Nat) (limits : Limits) : Follows (empty capacity limits) [] :=
  ⟨[], RecencyMap.remembers_of_nil rfl, rfl⟩

theorem Step.follows (hstep : Step cache events next) (h : Follows cache log) :
    Follows next (eventsSince log events) := by
  obtain ⟨uses, huses, hkeys⟩ := h
  cases hstep with
  | @found text tree hfind =>
    have hget := huses.get text
    rw [RecencyMap.record, RecencyMap.get_of_some hfind] at hget
    exact ⟨_, hget, by simp [eventsSince, Event.lookedUp?, RecencyMap.Use.key, hkeys]⟩
  | @stored text tree trees hinsert =>
    have hplace := huses.insert text tree
    rw [hinsert] at hplace
    exact ⟨_, hplace, by simp [eventsSince, Event.lookedUp?, RecencyMap.Use.key, hkeys]⟩
  | @replaced text tree trees old hinsert =>
    have hplace := huses.insert text tree
    rw [hinsert] at hplace
    exact ⟨_, hplace, by simp [eventsSince, Event.lookedUp?, RecencyMap.Use.key, hkeys]⟩
  | failed => exact ⟨uses, huses, by simp [eventsSince, Event.lookedUp?, hkeys]⟩
  | cleared => exact ⟨[], RecencyMap.remembers_of_nil rfl, rfl⟩

theorem Steps.follows (hsteps : Steps cache moments last) (h : Follows cache log) :
    Follows last (eventsSince log (moments.map Moment.event)) := by
  induction hsteps generalizing log with
  | nil => exact h
  | cons hstep _ ih =>
    rw [List.map_append, eventsSince_append, map_event_mk]
    exact ih (hstep.follows h)

theorem Follows.nodup_keys (h : Follows cache log) : cache.trees.keys.Nodup := by
  obtain ⟨uses, huses, -⟩ := h
  exact huses.nodup_keys

/-- The texts that a cache holds are the last of those that its log reports as looked up. -/
theorem Follows.keys_eq (h : Follows cache log) :
    cache.trees.keys =
      (RecencyMap.recency (log.filterMap Event.lookedUp?).reverse).rtake
        (min cache.trees.capacity (log.filterMap Event.lookedUp?).toFinset.card) := by
  obtain ⟨uses, huses, hkeys⟩ := h
  obtain ⟨forgotten, hrecency, hforgotten⟩ := huses.recency_eq
  have hsize := huses.size_le
  have hlength := RecencyMap.length_keys cache.trees
  have hcard : (log.filterMap Event.lookedUp?).toFinset.card =
      forgotten.length + cache.trees.keys.length := by
    rw [← List.length_append, ← hrecency,
      ← List.toFinset_card_of_nodup (RecencyMap.nodup_recency _)]
    congr 1
    ext key
    rw [List.mem_toFinset, List.mem_toFinset, RecencyMap.mem_recency, hkeys, List.mem_reverse]
  rw [← hkeys, hrecency, hcard]
  have hkept : min cache.trees.capacity (forgotten.length + cache.trees.keys.length) =
      cache.trees.keys.length := by
    rcases hforgotten with rfl | hfull
    · simp only [List.length_nil]
      omega
    · omega
  rw [hkept, List.rtake, List.length_append, Nat.add_sub_cancel, List.drop_left]

/-- A text is there if the last that is reported of its coming and going is that it came. -/
def Balanced (cache : TreeCache) (log : List Event) : Prop :=
  ∀ text, cache.trees.contains text = true ↔
    ∃ blank, (log.filter (Event.moves text)).getLast? = some (.miss text blank)

theorem balanced_of_nil (h : cache.trees.entries = []) : Balanced cache [] := by
  intro text
  simp [RecencyMap.contains, RecencyMap.find?, h]

theorem Step.balanced (hstep : Step cache events next) (hcapacity : cache.trees.capacity ≠ 0)
    (hnodup : cache.trees.keys.Nodup) (h : Balanced cache log) :
    Balanced next (eventsSince log events) := by
  cases hstep with
  | @found key tree hfind =>
    intro text
    have hsame : text = key → cache.trees.contains text = true := by
      rintro rfl
      exact RecencyMap.contains_of_find? hfind
    simp only [RecencyMap.contains_place, or_iff_left_of_imp hsame]
    simpa [eventsSince, Event.moves] using h text
  | @stored key tree trees hinsert =>
    cases RecencyMap.of_insert_eq_none hinsert hcapacity
    intro text
    rw [RecencyMap.contains_place, h text]
    by_cases hkey : text = key
    · simp [eventsSince, Event.moves, hkey]
    · simp [eventsSince, Event.moves, hkey, Ne.symm hkey]
  | @replaced key tree trees old hinsert =>
    obtain ⟨habsent, ⟨others, hentries⟩, rfl⟩ := RecencyMap.of_insert_eq_some hinsert
    have hkeys := RecencyMap.keys_eq_cons hentries
    have hother : old.1 ∉ others.map Prod.fst := (List.nodup_cons.1 (hkeys ▸ hnodup)).1
    have hne : key ≠ old.1 := by
      rw [RecencyMap.contains_eq_false_iff, hkeys] at habsent
      exact List.ne_of_not_mem_cons habsent
    intro text
    have hnext : (cache.trees.replaceFirst key tree).contains text = true ↔
        text ∈ others.map Prod.fst ∨ text = key := by
      rw [RecencyMap.contains_iff, RecencyMap.keys, RecencyMap.replaceFirst, hentries,
        List.tail_cons, List.map_append, List.mem_append]
      simp
    rw [hnext]
    by_cases hgone : text = old.1
    · simp [eventsSince, Event.moves, hgone, hother, hne.symm]
    by_cases hcame : text = key
    · simp [eventsSince, Event.moves, hcame, hne.symm]
    · have hkept : text ∈ others.map Prod.fst ↔ cache.trees.contains text = true := by
        rw [RecencyMap.contains_iff, hkeys, List.mem_cons, or_iff_right hgone]
      rw [or_iff_left hcame, hkept, h text]
      simp [eventsSince, Event.moves, Ne.symm hgone, Ne.symm hcame]
  | failed =>
    intro text
    simpa [eventsSince, Event.moves] using h text
  | cleared => exact balanced_of_nil rfl

theorem Steps.balanced (hsteps : Steps cache moments last) (hcapacity : cache.trees.capacity ≠ 0)
    (hfollows : Follows cache log) (h : Balanced cache log) :
    Balanced last (eventsSince log (moments.map Moment.event)) := by
  induction hsteps generalizing log with
  | nil => exact h
  | cons hstep _ ih =>
    rw [List.map_append, eventsSince_append, map_event_mk]
    refine ih ?_ (hstep.follows hfollows) (hstep.balanced hcapacity hfollows.nodup_keys h)
    rwa [hstep.capacity_eq]

theorem Step.contains_of_hit (hstep : Step cache events next) (h : some (.hit text) ∈ events) :
    cache.trees.contains text = true := by
  cases hstep with
  | found hfind =>
    cases List.mem_singleton.1 h
    exact RecencyMap.contains_of_find? hfind
  | stored | replaced | failed | cleared => simp at h

/-- A text is there when it is found. -/
theorem Steps.contains_of_hit {state : TreeCache} (hsteps : Steps cache moments last)
    (h : ⟨state, some (.hit text)⟩ ∈ moments) : state.trees.contains text = true := by
  induction hsteps with
  | nil => cases h
  | cons hstep _ ih =>
    rcases List.mem_append.1 h with h | h
    · obtain ⟨event, hmem, heq⟩ := List.mem_map.1 h
      cases heq
      exact hstep.contains_of_hit hmem
    · exact ih h

/-- `text` stands first and has to go for another one that has just been reported as parsed. -/
def MakesRoom (cache : TreeCache) (text : String) (before : List (Option Event)) : Prop :=
  ∃ earlier other blank, before = earlier ++ [some (.miss other blank)] ∧ other ≠ text ∧
    cache.trees.keys.head? = some text

theorem Step.makesRoom {before behind : List (Option Event)} (hstep : Step cache events next)
    (h : events = before ++ some (.eviction text) :: behind) : MakesRoom cache text before := by
  have hmem : some (.eviction text) ∈ events := by simp [h]
  cases hstep with
  | found | stored | failed | cleared => simp at hmem
  | @replaced key tree trees old hinsert =>
    obtain ⟨habsent, ⟨others, hentries⟩, -⟩ := RecencyMap.of_insert_eq_some hinsert
    have hkeys := RecencyMap.keys_eq_cons hentries
    have hne : key ≠ old.1 := by
      rw [RecencyMap.contains_eq_false_iff, hkeys] at habsent
      exact List.ne_of_not_mem_cons habsent
    rcases before with - | ⟨first, - | ⟨second, more⟩⟩
    · simp at h
    · simp only [List.cons_append, List.nil_append, List.cons.injEq, Option.some.injEq,
        Event.eviction.injEq] at h
      obtain ⟨rfl, rfl, -⟩ := h
      exact ⟨[], key, tree.isNone, rfl, hne, by rw [hkeys, List.head?_cons]⟩
    · simp at h

theorem Steps.makesRoom {state : TreeCache} {before behind : List Moment}
    (hsteps : Steps cache moments last)
    (h : moments = before ++ ⟨state, some (.eviction text)⟩ :: behind) :
    MakesRoom state text (before.map Moment.event) := by
  induction hsteps generalizing before with
  | nil => simp at h
  | @cons cache _ _ events moments hstep hsteps ih =>
    rcases List.append_eq_append_iff.1 h with ⟨later, rfl, hlater⟩ | ⟨rest, hevents, hrest⟩
    · obtain ⟨earlier, other, blank, hbefore, hother⟩ := ih hlater
      refine ⟨events ++ earlier, other, blank, ?_, hother⟩
      rw [List.map_append, map_event_mk, hbefore, List.append_assoc]
    · cases rest with
      | nil =>
        obtain ⟨earlier, other, blank, hbefore, -⟩ := @ih [] hrest.symm
        simp at hbefore
      | cons moment rest =>
        obtain ⟨first, later, rfl, rfl, hlater⟩ := List.map_eq_append_iff.1 hevents
        obtain ⟨event, later, rfl, hmoment, -⟩ := List.map_eq_cons_iff.1 hlater
        obtain ⟨hmoment', -⟩ := List.cons.inj hrest
        rw [← hmoment', Moment.mk.injEq] at hmoment
        obtain ⟨rfl, rfl⟩ := hmoment
        rw [map_event_mk]
        exact hstep.makesRoom rfl

/-- A look-up that fails reports this, and before it what was asked meanwhile has been reported. -/
theorem log_of_failed {source : Source} {meanwhile : List Request} {error : Error} {asked : Bool}
    {replies : List Reply} {size : Nat}
    (h : (cache.answer (.lookup text source meanwhile)).reply =
      .tree (.error error) asked replies size) :
    (cache.answer (.lookup text source meanwhile)).log =
      (cache.answerAll meanwhile).log ++ [.parseFailed error] := by
  cases hfind : cache.trees.find? text with
  | some tree =>
    rw [answer_of_found hfind] at h
    cases h
  | none =>
    rw [answer_of_absent hfind] at h ⊢
    have hreply := (Reply.tree.inj h).1
    cases hparse : parseSource (cache.answerAll meanwhile).cache.limits source with
    | error error' =>
      rw [settle_of_error hparse] at hreply ⊢
      cases hreply
      rfl
    | ok tree =>
      rw [settle_of_ok hparse] at hreply
      cases hreply

/-- The events since the last clear tell which texts a cache holds, and in which order. A text is
there when it is found, and stands first when it is pushed out, which is reported right behind the
text that it has to go for. -/
theorem log_replays_entries {capacity : Nat} (hcapacity : 0 < capacity) (limits : Limits)
    (requests : List Request) :
    let start := empty capacity limits
    let cache := (start.answerAll requests).cache
    let moments := start.momentsAll requests
    let log := eventsSince [] (moments.map Moment.event)
    let lookedUp := log.filterMap Event.lookedUp?
    moments.filterMap Moment.event = (start.answerAll requests).log ∧
    (∀ moment ∈ moments, Passes start requests moment.cache) ∧
    cache.trees.keys =
      (RecencyMap.recency lookedUp.reverse).rtake (min capacity lookedUp.toFinset.card) ∧
    (∀ text, cache.trees.contains text = true ↔
      ∃ blank, (log.filter (Event.moves text)).getLast? = some (.miss text blank)) ∧
    (∀ state text, ⟨state, some (.hit text)⟩ ∈ moments → state.trees.contains text = true) ∧
    (∀ before state text behind, moments = before ++ ⟨state, some (.eviction text)⟩ :: behind →
      MakesRoom state text (before.map Moment.event)) ∧
    ∀ (state : TreeCache) text source meanwhile error asked replies size,
      (state.answer (.lookup text source meanwhile)).reply =
        .tree (.error error) asked replies size →
      (state.answer (.lookup text source meanwhile)).log =
        (state.answerAll meanwhile).log ++ [.parseFailed error] := by
  intro start cache moments log lookedUp
  have hsteps : Steps start moments cache := steps_answerAll start requests
  have hfollows := follows_empty capacity limits
  have hkeys := (hsteps.follows hfollows).keys_eq
  rw [hsteps.capacity_eq] at hkeys
  refine ⟨reported_answerAll start requests, fun _ => passes_of_mem_momentsAll start requests,
    hkeys, ?_, fun _ _ => hsteps.contains_of_hit, fun _ _ _ _ => hsteps.makesRoom,
    fun _ _ _ _ _ _ _ _ => log_of_failed⟩
  exact hsteps.balanced (Nat.ne_of_gt hcapacity) hfollows (balanced_of_nil rfl)

/-- One text is stored while the other is parsed, and has to go for it; then all is dropped. -/
theorem log_replays_entries_meanwhile :
    let requests : List Request :=
      [.lookup "a" (Source.ofText "a") [.ofText "b"], .clear, .ofText "a[",
        .lookup "b" (Source.ofText "b") [.ofText "a"]]
    let start := empty 1 {}
    0 < 1 ∧ (start.answerAll requests).log =
        [.miss "b" false, .miss "a" false, .eviction "b",
          .parseFailed (.syntactic (.expected .expression .endOfInput) 1),
          .miss "a" false, .miss "b" false, .eviction "a"] ∧
      (start.answerAll requests).cache.trees.keys = ["b"] ∧
      (start.answerAll requests).cache.trees.contains "a" = false := by
  intro requests start
  obtain ⟨hlog, -, hkeys, hcontains, -⟩ := log_replays_entries (Nat.one_pos) {} requests
  have hevents : ((empty 1 {}).momentsAll requests).map Moment.event =
      [some (.miss "b" false), some (.miss "a" false), some (.eviction "b"), none,
        some (.parseFailed (.syntactic (.expected .expression .endOfInput) 1)),
        some (.miss "a" false), some (.miss "b" false), some (.eviction "a")] := by
    decide +kernel
  rw [hevents] at hkeys hcontains
  refine ⟨Nat.one_pos, ?_, hkeys.trans (by decide), ?_⟩
  · rw [← hlog, ← Function.id_comp Moment.event, ← List.filterMap_map, hevents]
    rfl
  · rw [Bool.eq_false_iff, ne_eq, hcontains]
    decide

end TreeCache
end XPathSyntax
