import Mathlib.Control.Monad.Basic
import XPathSyntax.Proofs.RecencyMap.Entries
import XPathSyntax.Tree.Equality
import XPathSyntax.TreeCache

/-! A cache cannot be told from parsing anew. Whatever has been looked up, pushed out or cleared
before, and whatever is asked while a text is being parsed, the reply to a look-up is what parsing
the text gives; for in every state that the cache passes through, each text stands with its own
tree. -/

namespace XPathSyntax

/-- Every text that is looked up is its own source, also by what is asked meanwhile. -/
inductive Request.Plain : Request → Prop where
  | lookup {text meanwhile} : (∀ request ∈ meanwhile, Plain request) →
      Plain (.lookup text (Source.ofText text) meanwhile)
  | contains {text} : Plain (.contains text)
  | isEmpty : Plain .isEmpty
  | clear : Plain .clear

mutual

/-- The reply gives the tree or the error that parsing under the limits gives, and so do the
replies to what was asked meanwhile. -/
inductive Reply.Agrees (limits : Limits) : Request → Reply → Prop where
  | remembered {text source meanwhile size} :
      Agrees limits (.lookup text source meanwhile) (.tree (parse limits text) false [] size)
  | parsed {text source meanwhile replies size} : AllAgree limits meanwhile replies →
      Agrees limits (.lookup text source meanwhile) (.tree (parse limits text) true replies size)
  | contains {text value size} : Agrees limits (.contains text) (.flag value size)
  | isEmpty {value size} : Agrees limits .isEmpty (.flag value size)
  | cleared {size} : Agrees limits .clear (.cleared size)

inductive Reply.AllAgree (limits : Limits) : List Request → List Reply → Prop where
  | nil : AllAgree limits [] []
  | cons {request reply requests replies} : Agrees limits request reply →
      AllAgree limits requests replies →
      AllAgree limits (request :: requests) (reply :: replies)

end

namespace TreeCache

/-- While a cache answers requests it passes through a state, which may lie inside a look-up that
has missed its text. -/
inductive Passes : TreeCache → List Request → TreeCache → Prop where
  | here {cache requests} : Passes cache requests cache
  | inside {cache state text source meanwhile requests} : cache.trees.find? text = none →
      Passes cache meanwhile state →
      Passes cache (.lookup text source meanwhile :: requests) state
  | behind {cache state request requests} : Passes (cache.answer request).cache requests state →
      Passes cache (request :: requests) state

structure Sound (limits : Limits) (cache : TreeCache) : Prop where
  limits_eq : cache.limits = limits
  parse_eq : ∀ entry ∈ cache.trees.entries, parse limits entry.1 = .ok entry.2

variable {limits : Limits} {cache state : TreeCache} {text : String}

theorem sound_empty (capacity : Nat) (limits : Limits) : Sound limits (empty capacity limits) where
  limits_eq := rfl
  parse_eq := by simp [empty, RecencyMap.empty]

theorem Sound.eq_of_find? (h : Sound limits cache) {tree : Option Tree}
    (hfind : cache.trees.find? text = some tree) : parse limits text = .ok tree :=
  h.parse_eq (text, tree) (RecencyMap.mem_of_find? hfind)

theorem Sound.place (h : Sound limits cache) {tree : Option Tree}
    (htree : parse limits text = .ok tree) :
    Sound limits { cache with trees := cache.trees.place text tree } := by
  refine ⟨h.limits_eq, ?_⟩
  intro entry hentry
  rcases RecencyMap.mem_place hentry with ⟨hmem, -⟩ | rfl
  · exact h.parse_eq entry hmem
  · exact htree

theorem Sound.clear (h : Sound limits cache) :
    Sound limits { cache with trees := cache.trees.clear } :=
  ⟨h.limits_eq, by simp [RecencyMap.clear]⟩

/-- A text that is not remembered is parsed, and its tree is stored only if it has one. -/
theorem Sound.settle (h : Sound limits cache) (text : String) :
    (cache.settle text (Source.ofText text)).reply = parse limits text ∧
      Sound limits (cache.settle text (Source.ofText text)).cache := by
  have hparse : parseSource cache.limits (Source.ofText text) = parse limits text := by
    rw [h.limits_eq, parse]
  cases hresult : parse limits text with
  | error error =>
    rw [settle_of_error (hparse.trans hresult)]
    exact ⟨rfl, h⟩
  | ok tree =>
    rw [settle_of_ok (hparse.trans hresult)]
    refine ⟨rfl, h.limits_eq, ?_⟩
    intro entry hentry
    rcases RecencyMap.mem_of_mem_insert hentry with hmem | rfl
    · exact h.parse_eq entry hmem
    · exact hresult

theorem Sound.lookupText (h : Sound limits cache) (text : String) :
    (cache.lookupText text).reply = parse limits text := by
  unfold TreeCache.lookupText
  cases hfind : cache.trees.find? text with
  | none =>
    rw [RecencyMap.get_of_none hfind]
    exact (h.settle text).1
  | some tree =>
    rw [RecencyMap.get_of_some hfind]
    exact (h.eq_of_find? hfind).symm

theorem Sound.not_contains (h : Sound limits cache) {error : Error}
    (herror : parse limits text = .error error) : cache.trees.contains text = false := by
  rw [Bool.eq_false_iff]
  intro hcontains
  obtain ⟨tree, hfind⟩ := Option.isSome_iff_exists.1 hcontains
  have := h.eq_of_find? hfind
  rw [herror] at this
  cases this

mutual

theorem Sound.answer {cache : TreeCache} (h : Sound limits cache) :
    ∀ request : Request, request.Plain →
      Reply.Agrees limits request (cache.answer request).reply ∧
        Sound limits (cache.answer request).cache
  | .lookup text source meanwhile, hplain => by
    cases hplain with
    | lookup hmeanwhile =>
      unfold TreeCache.answer
      cases hfind : cache.trees.find? text with
      | some tree =>
        rw [RecencyMap.get_of_some hfind]
        have htree := h.eq_of_find? hfind
        refine ⟨?_, h.place htree⟩
        dsimp only
        rw [← htree]
        exact .remembered
      | none =>
        rw [RecencyMap.get_of_none hfind]
        obtain ⟨hreplies, hbefore⟩ := Sound.answerAll h meanwhile hmeanwhile
        obtain ⟨hreply, hafter⟩ := hbefore.settle text
        refine ⟨?_, hafter⟩
        dsimp only
        rw [hreply]
        exact .parsed hreplies
  | .contains text, _ => by
    unfold TreeCache.answer
    exact ⟨.contains, h⟩
  | .isEmpty, _ => by
    unfold TreeCache.answer
    exact ⟨.isEmpty, h⟩
  | .clear, _ => by
    unfold TreeCache.answer
    exact ⟨.cleared, h.clear⟩

theorem Sound.answerAll {cache : TreeCache} (h : Sound limits cache) :
    ∀ requests : List Request, (∀ request ∈ requests, request.Plain) →
      Reply.AllAgree limits requests (cache.answerAll requests).reply ∧
        Sound limits (cache.answerAll requests).cache
  | [], _ => by
    unfold TreeCache.answerAll
    exact ⟨.nil, h⟩
  | request :: requests, hplain => by
    unfold TreeCache.answerAll
    obtain ⟨hreply, hfirst⟩ := Sound.answer h request (hplain _ List.mem_cons_self)
    obtain ⟨hreplies, hothers⟩ := Sound.answerAll hfirst requests fun r hr =>
      hplain r (List.mem_cons_of_mem _ hr)
    exact ⟨.cons hreply hreplies, hothers⟩

end

theorem Sound.of_passes {requests : List Request} (h : Sound limits cache)
    (hplain : ∀ request ∈ requests, request.Plain) (hpasses : Passes cache requests state) :
    Sound limits state := by
  induction hpasses with
  | here => exact h
  | inside _ _ ih =>
    cases hplain _ List.mem_cons_self with
    | lookup hmeanwhile => exact ih h hmeanwhile
  | behind _ ih =>
    have hfirst := (h.answer _ (hplain _ List.mem_cons_self)).2
    exact ih hfirst fun r hr => hplain r (List.mem_cons_of_mem _ hr)

/-- To ask for a text that is its own source is to look the text up. -/
theorem answer_ofText (cache : TreeCache) (text : String) :
    ∃ asked, cache.answer (.ofText text) =
      ⟨.tree (cache.lookupText text).reply asked [] (cache.lookupText text).cache.size,
        (cache.lookupText text).cache, (cache.lookupText text).log⟩ := by
  unfold Request.ofText TreeCache.answer TreeCache.lookupText
  cases hfind : cache.trees.find? text with
  | some tree =>
    rw [RecencyMap.get_of_some hfind]
    exact ⟨false, rfl⟩
  | none =>
    rw [RecencyMap.get_of_none hfind]
    refine ⟨true, ?_⟩
    simp [answerAll]

/-- Every look-up says what parsing says, and no state holds anything else. -/
theorem looks_up_what_parses (capacity : Nat) (limits : Limits) {requests : List Request}
    (hplain : ∀ request ∈ requests, request.Plain) :
    Reply.AllAgree limits requests ((empty capacity limits).answerAll requests).reply ∧
    ∀ state, Passes (empty capacity limits) requests state →
      (∀ text tree, (text, tree) ∈ state.trees.entries → parse limits text = .ok tree) ∧
      (∀ text error, parse limits text = .error error → state.trees.contains text = false) ∧
      ∀ text, (state.lookupText text).reply = parse limits text := by
  have hempty : Sound limits (empty capacity limits) := sound_empty capacity limits
  refine ⟨(hempty.answerAll requests hplain).1, ?_⟩
  intro state hpasses
  have h := hempty.of_passes hplain hpasses
  exact ⟨fun text tree hmem => h.parse_eq (text, tree) hmem, fun text error => h.not_contains,
    h.lookupText⟩

/-- A text is asked for again while it is being parsed, pushed out and cleared; another one never
parses. -/
theorem looks_up_what_parses_meanwhile :
    let requests : List Request :=
      [.lookup "a" (Source.ofText "a") [.ofText "a", .ofText "b", .clear], .ofText "a[",
        .ofText "a"]
    (∀ request ∈ requests, request.Plain) ∧
      Reply.AllAgree {} requests ((empty 1 {}).answerAll requests).reply ∧
      ∀ state, Passes (empty 1 {}) requests state → state.trees.contains "a[" = false := by
  intro requests
  have ofText (text : String) : (Request.ofText text).Plain := .lookup (by simp)
  have hplain : ∀ request ∈ requests, request.Plain := by
    intro request hrequest
    simp only [requests, List.mem_cons, List.not_mem_nil, or_false] at hrequest
    rcases hrequest with rfl | rfl | rfl
    · refine .lookup ?_
      intro request hrequest
      simp only [List.mem_cons, List.not_mem_nil, or_false] at hrequest
      rcases hrequest with rfl | rfl | rfl
      · exact ofText "a"
      · exact ofText "b"
      · exact .clear
    · exact ofText "a["
    · exact ofText "a"
  obtain ⟨hreplies, hstates⟩ := looks_up_what_parses 1 {} hplain
  have herror : parse {} "a[" =
      .error (.syntactic (.expected .expression .endOfInput) 1) := by decide +kernel
  exact ⟨hplain, hreplies, fun state hstate => (hstates state hstate).2.1 _ _ herror⟩

end TreeCache
end XPathSyntax
