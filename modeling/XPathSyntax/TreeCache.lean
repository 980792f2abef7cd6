import XPathSyntax.Event
import XPathSyntax.Parse
import XPathSyntax.RecencyMap

/-! A memory of parsed texts. A text that is not remembered is parsed from a source of tokens, and
further requests may be answered while that source is being made. Only successes are remembered. -/

namespace XPathSyntax

structure TreeCache where
  limits : Limits := {}
  trees : RecencyMap String (Option Tree)

def TreeCache.defaultCapacity : Nat := 1024

inductive Request where
  /-- The tree of `text`. If it is not remembered, the requests `meanwhile` are answered first and
  then `source` is parsed. -/
  | lookup (text : String) (source : Source) (meanwhile : List Request)
  | contains (text : String)
  | isEmpty
  | clear

/-- The tree of a text that is its own source. -/
def Request.ofText (text : String) : Request :=
  .lookup text (Source.ofText text) []

/-- The answers, each with the number of remembered texts afterwards. -/
inductive Reply where
  /-- `asked` tells whether the source was used. -/
  | tree (result : Except Error (Option Tree)) (asked : Bool) (meanwhile : List Reply) (size : Nat)
  | flag (value : Bool) (size : Nat)
  | cleared (size : Nat)

structure Answered (α : Type) where
  reply : α
  cache : TreeCache
  log : List Event

namespace TreeCache

def empty (capacity : Nat) (limits : Limits) : TreeCache :=
  { limits, trees := .empty capacity }

def size (cache : TreeCache) : Nat :=
  cache.trees.size

def store (cache : TreeCache) (text : String) (tree : Option Tree) :
    Answered (Except Error (Option Tree)) :=
  let (evicted, trees) := cache.trees.insert text tree
  ⟨.ok tree, { cache with trees },
    .miss text tree.isNone :: (evicted.map fun entry => Event.eviction entry.1).toList⟩

def settle (cache : TreeCache) (text : String) (source : Source) :
    Answered (Except Error (Option Tree)) :=
  let parsed := parseSource cache.limits source
  match parsed with
  | .error error => ⟨.error error, cache, Event.ofResult parsed⟩
  | .ok tree =>
    let stored := cache.store text tree
    { stored with log := Event.ofResult parsed ++ stored.log }

def lookupText (cache : TreeCache) (text : String) : Answered (Except Error (Option Tree)) :=
  match cache.trees.get text with
  | (some tree, trees) => ⟨.ok tree, { cache with trees }, [.hit text]⟩
  | (none, _) => cache.settle text (Source.ofText text)

mutual

def answer (cache : TreeCache) : Request → Answered Reply
  | .lookup text source meanwhile =>
    match cache.trees.get text with
    | (some tree, trees) =>
      let cache := { cache with trees }
      ⟨.tree (.ok tree) false [] cache.size, cache, [.hit text]⟩
    | (none, _) =>
      let before := answerAll cache meanwhile
      let settled := before.cache.settle text source
      ⟨.tree settled.reply true before.reply settled.cache.size, settled.cache,
        before.log ++ settled.log⟩
  | .contains text => ⟨.flag (cache.trees.contains text) cache.size, cache, []⟩
  | .isEmpty => ⟨.flag cache.trees.isEmpty cache.size, cache, []⟩
  | .clear =>
    let cache := { cache with trees := cache.trees.clear }
    ⟨.cleared cache.size, cache, []⟩

def answerAll (cache : TreeCache) : List Request → Answered (List Reply)
  | [] => ⟨[], cache, []⟩
  | request :: requests =>
    let first := answer cache request
    let others := answerAll first.cache requests
    ⟨first.reply :: others.reply, others.cache, first.log ++ others.log⟩

end

variable {cache : TreeCache} {source : Source} {error : Error} {tree : Option Tree}

theorem settle_of_error (h : parseSource cache.limits source = .error error) (text : String) :
    cache.settle text source = ⟨.error error, cache, [.parseFailed error]⟩ := by
  rw [settle, h]
  rfl

theorem settle_of_ok (h : parseSource cache.limits source = .ok tree) (text : String) :
    cache.settle text source = cache.store text tree := by
  rw [settle, h]
  rfl

end TreeCache
end XPathSyntax
