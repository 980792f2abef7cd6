import Mathlib.Data.List.Nodup
import Mathlib.Logic.Function.Iterate
import XPathSyntax.Tree.Release

/-! Every node of a tree is released once. Nodes are told apart by their addresses, so that the
loop can be followed node by node: each is either taken from the list of trees that are still to be
given up, or it is a leaf that goes together with the node above it. Neither way is a node released
that has anything but leaves below it. -/

open scoped List

namespace XPathSyntax.Tree

variable {t u : Tree} {ts : List Tree}

/-- Whether the children stand in a list, and not each in a place of its own. -/
def listsChildren : Tree → Bool
  | path _ | absolutePath _ | call _ _ => true
  | binary _ _ _ | step _ _ | predicate _ _ | nameTest _ _ | nodeType _ | literal _ | integer _
  | decimal _ | reference _ => false

def movesOut (t child : Tree) : Bool :=
  t.listsChildren || child.hasChildren

theorem moved_eq_filter (t : Tree) : t.moved = [t].filter hasChildren := by
  cases h : t.hasChildren <;> simp [moved, h]

theorem detach_snd (t : Tree) : t.detach.2 = t.children.filter t.movesOut := by
  cases t with
  | path steps | absolutePath steps | call _ steps =>
    exact (List.filter_eq_self.2 fun _ _ => rfl).symm
  | binary _ left right | predicate left right =>
    change left.moved ++ right.moved = ([left] ++ [right]).filter hasChildren
    rw [moved_eq_filter, moved_eq_filter, List.filter_append]
  | step _ test => exact moved_eq_filter test
  | nameTest | nodeType | literal | integer | decimal | reference => rfl

theorem children_detach_fst (t : Tree) :
    t.detach.1.children = if t.listsChildren then [] else t.children.map kept := by
  cases t <;> rfl

theorem hasChildren_kept (t : Tree) : t.kept.hasChildren = false := by
  unfold kept
  split
  · rfl
  · exact Bool.eq_false_iff.2 ‹_›

theorem children_eq_nil (h : t.hasChildren = false) : t.children = [] := by
  simpa [hasChildren] using h

/-- What is left of a tree has only leaves below it. -/
theorem hasChildren_of_mem_detach (h : u ∈ t.detach.1.children) : u.hasChildren = false := by
  rw [children_detach_fst] at h
  split at h
  · cases h
  · obtain ⟨s, -, rfl⟩ := List.mem_map.1 h
    exact hasChildren_kept s

theorem sizes_children (t : Tree) : t.size = sizes t.children + 1 := by
  cases t <;> simp [size, sizes, children]

theorem size_le_sizes (h : t ∈ ts) : t.size ≤ sizes ts := by
  induction h with
  | head => simp [sizes]
  | tail _ _ ih => exact Nat.le_trans ih (by simp [sizes])

theorem size_lt_of_mem_children (h : u ∈ t.children) : u.size < t.size := by
  rw [sizes_children t]
  exact Nat.lt_succ_of_le (size_le_sizes h)

/-- The node at an address: the turns that lead to it from the root. -/
def at? : Tree → List Nat → Option Tree
  | t, [] => some t
  | t, i :: address => t.children[i]?.bind fun s => s.at? address

structure Place where
  address : List Nat
  tree : Tree

namespace Place

variable {p v w : Place} {ws : List Place}

def below (w : Place) : List Place :=
  w.tree.children.mapIdx fun i s => ⟨w.address ++ [i], s⟩

theorem map_below (w : Place) : w.below.map (·.tree) = w.tree.children := by
  apply List.ext_getElem?
  intro i
  simp [below, Function.comp_def]

theorem mem_below : v ∈ w.below ↔
    ∃ i, w.tree.children[i]? = some v.tree ∧ v.address = w.address ++ [i] := by
  obtain ⟨address, tree⟩ := v
  simp [below, List.mem_iff_getElem?, and_comm, @eq_comm _ address]

theorem size_lt_of_mem_below (h : v ∈ w.below) : v.tree.size < w.tree.size := by
  apply size_lt_of_mem_children
  rw [← map_below]
  exact List.mem_map_of_mem h

def nodes (w : Place) : List Place :=
  w :: w.below.attach.flatMap fun v => nodes v.1
termination_by w.tree.size
decreasing_by exact size_lt_of_mem_below v.2

theorem nodes_eq (w : Place) : w.nodes = w :: w.below.flatMap nodes := by
  rw [nodes]
  simp

theorem mem_nodes : p ∈ w.nodes ↔
    ∃ address, w.tree.at? address = some p.tree ∧ p.address = w.address ++ address := by
  induction w using nodes.induct with
  | case1 w ih =>
    rw [nodes_eq, List.mem_cons, List.mem_flatMap]
    constructor
    · rintro (rfl | ⟨v, hv, hp⟩)
      · exact ⟨[], rfl, (List.append_nil _).symm⟩
      · obtain ⟨address, hat, hp⟩ := (ih ⟨v, hv⟩).1 hp
        obtain ⟨i, hi, hv⟩ := mem_below.1 hv
        exact ⟨i :: address, by simpa [at?, hi] using hat, by simp [hp, hv]⟩
    · rintro ⟨address, hat, hp⟩
      cases address with
      | nil =>
        obtain ⟨address, tree⟩ := p
        cases hat
        cases hp
        simp
      | cons i address =>
        obtain ⟨s, hs, hat⟩ := Option.bind_eq_some_iff.1 hat
        have hv : ⟨w.address ++ [i], s⟩ ∈ w.below := mem_below.2 ⟨i, hs, rfl⟩
        exact .inr ⟨_, hv, (ih ⟨_, hv⟩).2 ⟨address, hat, by simpa using hp⟩⟩

theorem pairwise_below (w : Place) : w.below.Pairwise fun u v =>
    ∃ i j, i ≠ j ∧ u.address = w.address ++ [i] ∧ v.address = w.address ++ [j] := by
  rw [List.pairwise_iff_getElem]
  intro i j _ _ hij
  exact ⟨i, j, Nat.ne_of_lt hij, by simp [below], by simp [below]⟩

/-- No two nodes have the same address. -/
theorem nodup_nodes (w : Place) : (w.nodes.map (·.address)).Nodup := by
  induction w using nodes.induct with
  | case1 w ih =>
    rw [nodes_eq, List.map_cons, List.nodup_cons, List.map_flatMap, List.nodup_flatMap]
    refine ⟨?_, fun v hv => ih ⟨v, hv⟩, (pairwise_below w).imp ?_⟩
    · intro h
      obtain ⟨v, hv, h⟩ := List.mem_flatMap.1 h
      obtain ⟨p, hp, hpw⟩ := List.mem_map.1 h
      obtain ⟨address, -, hp⟩ := mem_nodes.1 hp
      obtain ⟨i, -, hv⟩ := mem_below.1 hv
      simp [hp, hv] at hpw
    · rintro u v ⟨i, j, hij, hu, hv⟩ address hau hav
      obtain ⟨p, hp, rfl⟩ := List.mem_map.1 hau
      obtain ⟨q, hq, hqp⟩ := List.mem_map.1 hav
      obtain ⟨_, -, hp⟩ := mem_nodes.1 hp
      obtain ⟨_, -, hq⟩ := mem_nodes.1 hq
      simp [hp, hq, hu, hv, hij.symm] at hqp

theorem nodes_of_leaf (h : w.tree.hasChildren = false) : w.nodes = [w] := by
  rw [nodes_eq, below, children_eq_nil h]
  rfl

/-- The nodes directly below that are moved away when the node is released. -/
def leaving (w : Place) : List Place :=
  w.below.filter fun v => w.tree.movesOut v.tree

def staying (w : Place) : List Place :=
  w.below.filter fun v => !w.tree.movesOut v.tree

theorem map_leaving (w : Place) : w.leaving.map (·.tree) = w.tree.detach.2 := by
  rw [detach_snd, ← map_below, List.filter_map]
  rfl

theorem hasChildren_of_mem_staying (h : v ∈ w.staying) : v.tree.hasChildren = false := by
  have := (List.mem_filter.1 h).2
  rw [Bool.not_eq_true', movesOut, Bool.or_eq_false_iff] at this
  exact this.2

theorem below_iff {i : Nat} : ⟨w.address ++ [i], t⟩ ∈ w.below ↔ w.tree.children[i]? = some t := by
  simp [mem_below]

/-- What is left below the node: the leaves that stay, and placeholders for the others. -/
theorem getElem?_children_detach {i : Nat} : w.tree.detach.1.children[i]? = some t ↔
    ⟨w.address ++ [i], t⟩ ∈ w.staying ∨
      w.tree.listsChildren = false ∧ t = placeholder ∧
        ∃ s, ⟨w.address ++ [i], s⟩ ∈ w.leaving := by
  simp only [staying, leaving, List.mem_filter, below_iff, movesOut, children_detach_fst]
  cases w.tree.listsChildren with
  | true => simp
  | false =>
    cases hc : w.tree.children[i]? with
    | none => simp [hc]
    | some c =>
      cases h : c.hasChildren with
      | true =>
        have hne : ¬(c = t ∧ t.hasChildren = false) := by
          rintro ⟨rfl, hc⟩
          rw [h] at hc
          cases hc
        simp [hc, kept, h, hne, @eq_comm _ placeholder]
      | false =>
        have heq : c = t → t.hasChildren = false := by
          rintro rfl
          exact h
        simpa [hc, kept, h] using heq

end Place

open Place

/-- The nodes that are taken from a list of trees to be given up, in that order. -/
def visits : List Place → List Place
  | [] => []
  | w :: pending => w :: visits (w.leaving.reverse ++ pending)
termination_by pending => sizes (pending.map (·.tree))
decreasing_by
  have := sizes_detach_lt w.tree
  rw [← map_leaving] at this
  simp only [List.map_append, List.map_reverse, List.map_cons, sizes_append, sizes_reverse, sizes]
  omega

/-- The loop takes these nodes. -/
theorem map_visits (ws : List Place) :
    (visits ws).map (·.tree.detach.1) = releaseAll (ws.map (·.tree)) := by
  fun_induction visits ws with
  | case1 => simp [releaseAll]
  | case2 w pending ih =>
    rw [List.map_cons, ih, List.map_cons, releaseAll, List.map_append, List.map_reverse,
      map_leaving]

/-- The nodes that are released: those that are taken, and with each the leaves that stay below
it. -/
def released (ws : List Place) : List Place :=
  (visits ws).flatMap fun w => w :: w.staying

/-- Whatever the list holds is released, node by node. -/
theorem released_perm (ws : List Place) : released ws ~ ws.flatMap nodes := by
  unfold released
  fun_induction visits ws with
  | case1 => exact .nil
  | case2 w pending ih =>
    have hstaying : w.staying.flatMap nodes = w.staying := by
      refine (List.flatMap_congr fun v hv => ?_).trans (List.flatMap_singleton' _)
      exact nodes_of_leaf (hasChildren_of_mem_staying hv)
    have hbelow : w.staying ++ w.leaving ~ w.below :=
      List.perm_append_comm.trans (List.filter_append_perm _ _)
    calc
      List.flatMap (fun w => w :: w.staying) (w :: visits (w.leaving.reverse ++ pending))
      _ ~ w :: (w.staying ++ (w.leaving.reverse ++ pending).flatMap nodes) :=
        .cons w (.append_left _ ih)
      _ ~ w :: (w.staying.flatMap nodes ++ (w.leaving.flatMap nodes ++ pending.flatMap nodes)) := by
        rw [hstaying, List.flatMap_append]
        have hreverse := w.leaving.reverse_perm.flatMap_right nodes
        exact .cons w (.append_left _ (.append_right _ hreverse))
      _ ~ w :: w.below.flatMap nodes ++ pending.flatMap nodes := by
        rw [← List.append_assoc, ← List.flatMap_append]
        exact .cons w (.append_right _ (hbelow.flatMap_right nodes))
      _ = (w :: pending).flatMap nodes := by rw [List.flatMap_cons, nodes_eq]

def round : List Tree → List Tree
  | [] => []
  | t :: pending => t.detach.2.reverse ++ pending

/-- Which tree each round takes. -/
theorem head?_iterate_round (n : Nat) (ws : List Place) :
    (round^[n] (ws.map (·.tree))).head? = (visits ws)[n]?.map (·.tree) := by
  induction n generalizing ws with
  | zero => cases ws <;> simp [visits]
  | succ n ih =>
    rw [Function.iterate_succ_apply]
    cases ws with
    | nil => simpa [round, visits] using ih []
    | cons w pending =>
      have := ih (w.leaving.reverse ++ pending)
      simpa [round, visits, map_leaving] using this

theorem length_releaseAll_le (ts : List Tree) : (releaseAll ts).length ≤ sizes ts := by
  fun_induction releaseAll ts with
  | case1 => exact Nat.zero_le _
  | case2 t pending ih =>
    have := sizes_detach_lt t
    simp only [sizes_append, sizes_reverse] at ih
    simp only [List.length_cons, sizes]
    omega

theorem release_of_detach_eq_nil (h : t.detach.2 = []) : t.release = [t.detach.1] := by
  rw [release, releaseAll, h]
  simp [releaseAll]

/-- A tree that has been emptied is released alone. -/
theorem detach_detach_fst (t : Tree) : t.detach.1.detach.2 = [] := by
  rw [detach_snd, List.filter_eq_nil_iff]
  intro u hu
  have hlists : t.listsChildren = false ∧ t.detach.1.listsChildren = t.listsChildren := by
    refine ⟨?_, by cases t <;> rfl⟩
    rw [children_detach_fst] at hu
    by_contra h
    rw [Bool.not_eq_false] at h
    simp [h] at hu
  simp [movesOut, hlists, hasChildren_of_mem_detach hu]

theorem exists_of_mem_releaseAll (h : u ∈ releaseAll ts) : ∃ t : Tree, u = t.detach.1 := by
  fun_induction releaseAll ts with
  | case1 => cases h
  | case2 t pending ih =>
    rcases List.mem_cons.1 h with rfl | h
    · exact ⟨t, rfl⟩
    · exact ih h

/-- The calls that it takes to drop a tree nest no deeper than this. A call drops each tree that it
has taken from its list and emptied, and then what is left below its own node. -/
inductive DropsWithin : Nat → Tree → Prop where
  | intro {n : Nat} {t : Tree} : (∀ u ∈ t.release.tail, DropsWithin n u) →
      (∀ c ∈ t.detach.1.children, DropsWithin n c) → DropsWithin (n + 1) t

theorem dropsWithin_leaf (n : Nat) (h : t.hasChildren = false) : DropsWithin (n + 1) t := by
  have hnil := children_eq_nil h
  have hdetach : t.detach.2 = [] := by
    rw [detach_snd, hnil, List.filter_nil]
  refine .intro ?_ ?_
  · simp [release_of_detach_eq_nil hdetach]
  · simp [children_detach_fst, hnil]

theorem dropsWithin_detach (t : Tree) : DropsWithin 2 t.detach.1 := by
  refine .intro ?_ ?_
  · simp [release_of_detach_eq_nil (detach_detach_fst t)]
  · intro c hc
    exact dropsWithin_leaf 0 (hasChildren_of_mem_detach hc)

theorem dropsWithin (t : Tree) : DropsWithin 3 t := by
  refine .intro ?_ ?_
  · intro u hu
    obtain ⟨s, rfl⟩ := exists_of_mem_releaseAll (List.mem_of_mem_tail hu)
    exact dropsWithin_detach s
  · intro c hc
    exact dropsWithin_leaf 1 (hasChildren_of_mem_detach hc)

/-- A tree is given up by releasing these nodes. -/
structure GivesUp (t : Tree) (taken : List Place) : Prop where
  /-- The loop takes them from its list, one in each round, and empties them. -/
  takes : ∀ n, (round^[n] [t]).head? = taken[n]?.map (·.tree)
  empties : t.release = taken.map (·.tree.detach.1)
  /-- There are no more rounds than the tree has nodes. -/
  ends : ∀ n, round^[n] [t] = [] ↔ taken.length ≤ n
  length_le : taken.length ≤ t.size
  /-- Every node is taken, or stays below one that is taken. -/
  all : ∀ p : Place, (∃ w ∈ taken, p = w ∨ p ∈ w.staying) ↔ t.at? p.address = some p.tree
  /-- No node is released twice. -/
  once : ((taken.flatMap fun w => w :: w.staying).map (·.address)).Nodup
  /-- What is left below a node that is taken: leaves that stay and placeholders for the others. -/
  leaves : ∀ w ∈ taken, ∀ i s, w.tree.detach.1.children[i]? = some s ↔
    ⟨w.address ++ [i], s⟩ ∈ w.staying ∨
      w.tree.listsChildren = false ∧ s = placeholder ∧ ∃ c, ⟨w.address ++ [i], c⟩ ∈ w.leaving
  childless : ∀ w ∈ taken, ∀ s ∈ w.tree.detach.1.children, s.hasChildren = false

/-- Giving up a tree comes to an end, releases every node once, and never while there is more than
a leaf below it, so that the calls for it nest no deeper than three. -/
theorem releases_every_node_once (t : Tree) :
    (∃ taken, GivesUp t taken) ∧ DropsWithin 3 t := by
  let root : Place := ⟨[], t⟩
  have takes (n : Nat) : (round^[n] [t]).head? = (visits [root])[n]?.map (·.tree) :=
    head?_iterate_round n [root]
  have empties : t.release = (visits [root]).map (·.tree.detach.1) := (map_visits [root]).symm
  have perm : released [root] ~ root.nodes := by
    simpa using released_perm [root]
  refine ⟨⟨visits [root], takes, empties, ?_, ?_, ?_, ?_, ?_, ?_⟩, dropsWithin t⟩
  · intro n
    rw [← List.head?_eq_none_iff, takes, Option.map_eq_none_iff, List.getElem?_eq_none_iff]
  · have hlength := length_releaseAll_le [t]
    rw [← release, empties, List.length_map] at hlength
    exact hlength
  · intro p
    calc
      (∃ w ∈ visits [root], p = w ∨ p ∈ w.staying) ↔ p ∈ released [root] := by simp [released]
      _ ↔ p ∈ root.nodes := perm.mem_iff
      _ ↔ t.at? p.address = some p.tree := by simp [mem_nodes, root, and_comm]
  · exact (perm.map _).nodup_iff.2 (nodup_nodes root)
  · intro w _ i s
    exact getElem?_children_detach
  · intro w _ s hs
    exact hasChildren_of_mem_detach hs

end XPathSyntax.Tree
