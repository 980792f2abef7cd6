import XPathSyntax.Proofs.RecencyMap.History
import XPathSyntax.Proofs.TreeCache.Transparent

/-! Requests may be asked while others are being answered, but what happens to a cache happens one
step after the other: a tree is found, a tree is stored, a parse fails, or everything is dropped.
An invariant of steps is therefore an invariant of every run, however deeply its requests nest. -/

namespace XPathSyntax

/-- A point of a run, with the cache as it stood there. -/
structure Moment where
  cache : TreeCache
  /-- What was reported there; nothing, if the cache was cleared. -/
  event : Option Event

namespace TreeCache

mutual

/-- The moments of an answer at which something is reported or cleared, in their order. -/
def moments (cache : TreeCache) : Request → List Moment
  | .lookup text source meanwhile =>
    match cache.trees.find? text with
    | some _ => [⟨cache, some (.hit text)⟩]
    | none =>
      let before := (cache.answerAll meanwhile).cache
      momentsAll cache meanwhile ++
        (before.settle text source).log.map fun event => ⟨before, some event⟩
  | .contains _ | .isEmpty => []
  | .clear => [⟨cache, none⟩]

def momentsAll (cache : TreeCache) : List Request → List Moment
  | [] => []
  | request :: requests =>
    moments cache request ++ momentsAll (cache.answer request).cache requests

end

/-- One thing that happens to a cache: what is reported of it, and the cache that it leaves. -/
inductive Step : TreeCache → List (Option Event) → TreeCache → Prop where
  | found {cache : TreeCache} {text tree} : cache.trees.find? text = some tree →
      Step cache [some (.hit text)] { cache with trees := cache.trees.place text tree }
  | stored {cache : TreeCache} {text tree trees} :
      cache.trees.insert text tree = (none, trees) →
      Step cache [some (.miss text tree.isNone)] { cache with trees }
  | replaced {cache : TreeCache} {text tree trees} {old : String × Option Tree} :
      cache.trees.insert text tree = (some old, trees) →
      Step cache [some (.miss text tree.isNone), some (.eviction old.1)] { cache with trees }
  | failed {cache : TreeCache} {error} : Step cache [some (.parseFailed error)] cache
  | cleared {cache : TreeCache} : Step cache [none] { cache with trees := cache.trees.clear }

inductive Steps : TreeCache → List Moment → TreeCache → Prop where
  | nil {cache} : Steps cache [] cache
  | cons {cache next last events moments} : Step cache events next → Steps next moments last →
      Steps cache (events.map (Moment.mk cache) ++ moments) last

variable {cache next last state : TreeCache} {events : List (Option Event)}
  {moments others : List Moment} {requests : List Request}

theorem answer_of_found {text : String} {tree : Option Tree}
    (h : cache.trees.find? text = some tree) (source : Source) (meanwhile : List Request) :
    cache.answer (.lookup text source meanwhile) =
      ⟨.tree (.ok tree) false [] (cache.trees.place text tree).size,
        { cache with trees := cache.trees.place text tree }, [.hit text]⟩ := by
  unfold answer
  rw [RecencyMap.get_of_some h]
  rfl

/-- A text that is not remembered is settled in the cache that the other requests leave. -/
theorem answer_of_absent {text : String} (h : cache.trees.find? text = none) (source : Source)
    (meanwhile : List Request) :
    let before := cache.answerAll meanwhile
    let settled := before.cache.settle text source
    cache.answer (.lookup text source meanwhile) =
      ⟨.tree settled.reply true before.reply settled.cache.size, settled.cache,
        before.log ++ settled.log⟩ := by
  unfold answer
  rw [RecencyMap.get_of_none h]

theorem Steps.one (h : Step cache events next) :
    Steps cache (events.map (Moment.mk cache)) next := by
  have := Steps.cons h .nil
  rwa [List.append_nil] at this

theorem Steps.append (h : Steps cache moments next) (h' : Steps next others last) :
    Steps cache (moments ++ others) last := by
  induction h with
  | nil => exact h'
  | cons hstep _ ih =>
    rw [List.append_assoc]
    exact .cons hstep (ih h')

theorem steps_store (cache : TreeCache) (text : String) (tree : Option Tree) :
    Steps cache ((cache.store text tree).log.map fun event => ⟨cache, some event⟩)
      (cache.store text tree).cache := by
  cases hinsert : cache.trees.insert text tree with
  | mk evicted trees =>
    rw [store, hinsert]
    cases evicted with
    | none => exact .one (.stored hinsert)
    | some old => exact .one (.replaced hinsert)

theorem steps_settle (cache : TreeCache) (text : String) (source : Source) :
    Steps cache ((cache.settle text source).log.map fun event => ⟨cache, some event⟩)
      (cache.settle text source).cache := by
  cases hparse : parseSource cache.limits source with
  | error error =>
    rw [settle_of_error hparse]
    exact .one .failed
  | ok tree =>
    rw [settle_of_ok hparse]
    exact steps_store cache text tree

mutual

theorem steps_answer (cache : TreeCache) : ∀ request : Request,
    Steps cache (cache.moments request) (cache.answer request).cache
  | .lookup text source meanwhile => by
    unfold TreeCache.moments
    cases hfind : cache.trees.find? text with
    | some tree =>
      rw [answer_of_found hfind]
      exact .one (.found hfind)
    | none =>
      rw [answer_of_absent hfind]
      exact (steps_answerAll cache meanwhile).append (steps_settle _ text source)
  | .contains _ => by
    unfold TreeCache.moments answer
    exact .nil
  | .isEmpty => by
    unfold TreeCache.moments answer
    exact .nil
  | .clear => by
    unfold TreeCache.moments answer
    exact .one .cleared

theorem steps_answerAll (cache : TreeCache) : ∀ requests : List Request,
    Steps cache (cache.momentsAll requests) (cache.answerAll requests).cache
  | [] => by
    unfold momentsAll answerAll
    exact .nil
  | request :: requests => by
    unfold momentsAll answerAll
    exact (steps_answer cache request).append (steps_answerAll _ requests)

end

mutual

/-- What is reported at the moments of an answer is its log. -/
theorem reported_answer (cache : TreeCache) : ∀ request : Request,
    (cache.moments request).filterMap Moment.event = (cache.answer request).log
  | .lookup text source meanwhile => by
    unfold TreeCache.moments
    cases hfind : cache.trees.find? text with
    | some tree =>
      rw [answer_of_found hfind]
      rfl
    | none =>
      rw [answer_of_absent hfind]
      simp [reported_answerAll cache meanwhile, List.filterMap_map]
  | .contains _ => by
    unfold TreeCache.moments answer
    rfl
  | .isEmpty => by
    unfold TreeCache.moments answer
    rfl
  | .clear => by
    unfold TreeCache.moments answer
    rfl

theorem reported_answerAll (cache : TreeCache) : ∀ requests : List Request,
    (cache.momentsAll requests).filterMap Moment.event = (cache.answerAll requests).log
  | [] => by
    unfold momentsAll answerAll
    rfl
  | request :: requests => by
    unfold momentsAll answerAll
    rw [List.filterMap_append, reported_answer cache request, reported_answerAll _ requests]

end

theorem passes_answerAll (cache : TreeCache) (requests : List Request) :
    Passes cache requests (cache.answerAll requests).cache := by
  induction requests generalizing cache with
  | nil =>
    unfold answerAll
    exact .here
  | cons request requests ih =>
    unfold answerAll
    exact .behind (ih _)

mutual

/-- What a cache is said to be at a moment, it has been. -/
theorem passes_of_mem_moments {moment : Moment} (cache : TreeCache) : ∀ request : Request,
    moment ∈ cache.moments request → ∀ requests, Passes cache (request :: requests) moment.cache
  | .lookup text source meanwhile, hmem, requests => by
    unfold TreeCache.moments at hmem
    cases hfind : cache.trees.find? text with
    | some tree =>
      rw [hfind, List.mem_singleton] at hmem
      rw [hmem]
      exact .here
    | none =>
      rw [hfind, List.mem_append, List.mem_map] at hmem
      rcases hmem with hmem | ⟨event, -, rfl⟩
      · exact .inside hfind (passes_of_mem_momentsAll cache meanwhile hmem)
      · exact .inside hfind (passes_answerAll cache meanwhile)
  | .contains _, hmem, _ | .isEmpty, hmem, _ => by
    unfold TreeCache.moments at hmem
    cases hmem
  | .clear, hmem, _ => by
    unfold TreeCache.moments at hmem
    rw [List.mem_singleton.1 hmem]
    exact .here

theorem passes_of_mem_momentsAll {moment : Moment} (cache : TreeCache) :
    ∀ requests : List Request, moment ∈ cache.momentsAll requests →
      Passes cache requests moment.cache
  | [], hmem => by
    unfold momentsAll at hmem
    cases hmem
  | request :: requests, hmem => by
    unfold momentsAll at hmem
    rcases List.mem_append.1 hmem with hmem | hmem
    · exact passes_of_mem_moments cache request hmem requests
    · exact .behind (passes_of_mem_momentsAll _ requests hmem)

end

/-- Every state on the way has been reached by steps. -/
theorem steps_of_passes (h : Passes cache requests state) :
    ∃ moments, Steps cache moments state := by
  induction h with
  | here => exact ⟨[], .nil⟩
  | inside _ _ ih => exact ih
  | behind _ ih =>
    obtain ⟨others, hothers⟩ := ih
    exact ⟨_, (steps_answer _ _).append hothers⟩

theorem Step.limits_eq (h : Step cache events next) : next.limits = cache.limits := by
  cases h <;> rfl

theorem Step.capacity_eq (h : Step cache events next) :
    next.trees.capacity = cache.trees.capacity := by
  cases h with
  | found => rfl
  | stored hinsert | replaced hinsert =>
    exact congrArg (·.2.capacity) hinsert ▸ (RecencyMap.inserts_insert ..).capacity_eq
  | failed => rfl
  | cleared => rfl

theorem Steps.limits_eq (h : Steps cache moments next) : next.limits = cache.limits := by
  induction h with
  | nil => rfl
  | cons hstep _ ih => exact ih.trans hstep.limits_eq

theorem Steps.capacity_eq (h : Steps cache moments next) :
    next.trees.capacity = cache.trees.capacity := by
  induction h with
  | nil => rfl
  | cons hstep _ ih => exact ih.trans hstep.capacity_eq

end TreeCache
end XPathSyntax
