import XPathSyntax.Proofs.Text.Quoted
import XPathSyntax.Proofs.Tree.Denoted
import XPathSyntax.Tree.Sexp

/-! The bracketed form loses nothing: it says where it ends and which tree it is, whatever follows.
Numbers alone are written without quotes, so this takes numbers in which no bracket is closed; the
numbers of every tree that a text denotes are such. -/

namespace XPathSyntax.Tree

open Text (Stops quoteOnto quoteOnto_inj stops_cons)

variable {s t : Tree} {rest rest' : List Char}

mutual

/-- Whether no number in the tree has a closing bracket in its text. -/
def numbersClear : Tree → Bool
  | integer text | decimal text => !text.toList.contains ')'
  | binary _ left right => left.numbersClear && right.numbersClear
  | path steps | absolutePath steps => allNumbersClear steps
  | step _ test => test.numbersClear
  | predicate base filter => base.numbersClear && filter.numbersClear
  | call _ arguments => allNumbersClear arguments
  | nameTest _ _ | nodeType _ | literal _ | reference _ => true

def allNumbersClear : List Tree → Bool
  | [] => true
  | t :: ts => t.numbersClear && allNumbersClear ts

end

theorem allNumbersClear_iff (ts : List Tree) :
    allNumbersClear ts = true ↔ ∀ t ∈ ts, t.numbersClear = true := by
  induction ts with
  | nil => simp [allNumbersClear]
  | cons t ts ih => simp [allNumbersClear, ih]

theorem numbersClear_of_mem_children (h : t.numbersClear = true) :
    ∀ s ∈ t.children, s.numbersClear = true := by
  cases t <;> simp_all [numbersClear, children, allNumbersClear_iff]

/-! ### The tag -/

inductive SameForm : Tree → Tree → Prop where
  | binary {op left right left' right'} :
      SameForm (.binary op left right) (.binary op left' right')
  | path {steps steps'} : SameForm (.path steps) (.path steps')
  | absolutePath {steps steps'} : SameForm (.absolutePath steps) (.absolutePath steps')
  | step {axis test axis' test'} : SameForm (.step axis test) (.step axis' test')
  | predicate {base filter base' filter'} :
      SameForm (.predicate base filter) (.predicate base' filter')
  | nameTest {qualifier name qualifier' name'} :
      SameForm (.nameTest qualifier name) (.nameTest qualifier' name')
  | nodeType {name name'} : SameForm (.nodeType name) (.nodeType name')
  | call {name arguments name' arguments'} :
      SameForm (.call name arguments) (.call name' arguments')
  | literal {text text'} : SameForm (.literal text) (.literal text')
  | integer {text text'} : SameForm (.integer text) (.integer text')
  | decimal {text text'} : SameForm (.decimal text) (.decimal text')
  | reference {name name'} : SameForm (.reference name) (.reference name')

/-- Only a binary tree has the tag of an operator. -/
theorem tag_ne_operator (h : ∀ op left right, t ≠ binary op left right) (op : Operator) :
    op.tag ≠ t.tag := by
  have foreign : Operator.ofTag? t.tag = none := by
    cases t with
    | binary op left right => exact absurd rfl (h op left right)
    | _ => rfl
  intro heq
  exact Option.some_ne_none op ((Operator.ofTag?_eq_some_iff.2 heq).symm.trans foreign)

theorem sameForm_of_tag (h : s.tag = t.tag) : SameForm s t := by
  cases s with
  | binary op left right =>
    cases t with
    | binary op' left' right' =>
      obtain rfl := Operator.tag_injective h
      exact .binary
    | _ => exact absurd h (tag_ne_operator (by simp) op)
  | _ =>
    cases t with
    | binary op left right => exact absurd h.symm (tag_ne_operator (by simp) op)
    | _ =>
      first
      | constructor
      | simp only [tag, String.reduceEq] at h

def inTag (c : Char) : Bool :=
  c != ' ' && c != ')'

theorem inTag_of_mem_tag (t : Tree) : ∀ c ∈ t.tag.toList, inTag c = true := by
  rw [← List.all_eq_true]
  cases t with
  | binary op left right =>
    simp only [tag]
    cases op <;> decide
  | _ =>
    simp only [tag]
    decide

theorem sexpsOnto_stops (ts : List Tree) (rest : List Char) :
    Stops inTag (sexpsOnto ts (')' :: rest)) := by
  cases ts with
  | nil => exact stops_cons rfl rest
  | cons t ts => exact stops_cons rfl _

/-- What is written for a tree begins with its tag, and the tag ends where a part or the closing
bracket begins. -/
theorem exists_headOnto (t : Tree) (rest : List Char) :
    ∃ parts, t.sexpOnto rest = headOnto t.tag parts ∧ Stops inTag parts := by
  cases t with
  | path steps => exact ⟨_, rfl, sexpsOnto_stops steps rest⟩
  | absolutePath steps => exact ⟨_, rfl, sexpsOnto_stops steps rest⟩
  | _ => exact ⟨_, rfl, stops_cons rfl _⟩

theorem sameForm_of_sexpOnto (h : s.sexpOnto rest = t.sexpOnto rest') : SameForm s t := by
  obtain ⟨parts, hs, hstop⟩ := s.exists_headOnto rest
  obtain ⟨parts', ht, hstop'⟩ := t.exists_headOnto rest'
  rw [hs, ht] at h
  have tags := hstop.append_inj hstop' (inTag_of_mem_tag s) (inTag_of_mem_tag t)
    (List.tail_eq_of_cons_eq h)
  exact sameForm_of_tag (String.toList_inj.1 tags.1)

/-! ### The parts -/

theorem headOnto_inj {tag : String} (h : headOnto tag rest = headOnto tag rest') : rest = rest' :=
  List.append_cancel_left (List.tail_eq_of_cons_eq h)

theorem quoteOnto_string_inj {a b : String}
    (h : quoteOnto a.toList rest = quoteOnto b.toList rest') : a = b ∧ rest = rest' := by
  obtain ⟨htext, hrest⟩ := quoteOnto_inj h
  exact ⟨String.toList_inj.1 htext, hrest⟩

/-- The word `nil` begins with no quote, so it is not taken for a qualifier. -/
theorem qualifierOnto_inj {q q' : Option String}
    (h : qualifierOnto q rest = qualifierOnto q' rest') : q = q' ∧ rest = rest' := by
  cases q with
  | none =>
    cases q' with
    | none => exact ⟨rfl, List.append_cancel_left h⟩
    | some => exact absurd (List.head_eq_of_cons_eq h) (by decide)
  | some =>
    cases q' with
    | none => exact absurd (List.head_eq_of_cons_eq h) (by decide)
    | some =>
      obtain ⟨rfl, hrest⟩ := quoteOnto_string_inj h
      exact ⟨rfl, hrest⟩

theorem axis_append_inj {a b : Axis}
    (h : a.name.toList ++ ' ' :: rest = b.name.toList ++ ' ' :: rest') : a = b ∧ rest = rest' := by
  have clear (a : Axis) : ∀ c ∈ a.name.toList, (c != ' ') = true := by
    rw [← List.all_eq_true]
    cases a <;> decide
  obtain ⟨hname, hrest⟩ :=
    (stops_cons rfl rest).append_inj (stops_cons rfl rest') (clear a) (clear b) h
  exact ⟨Axis.name_injective (String.toList_inj.1 hname), List.tail_eq_of_cons_eq hrest⟩

theorem number_append_inj {a b : String} (ha : (!a.toList.contains ')') = true)
    (hb : (!b.toList.contains ')') = true)
    (h : a.toList ++ ')' :: rest = b.toList ++ ')' :: rest') : a = b ∧ rest = rest' := by
  have clear {a : String} (ha : (!a.toList.contains ')') = true) :
      ∀ c ∈ a.toList, (c != ')') = true :=
    Text.forall_bne (by simpa using ha)
  obtain ⟨htext, hrest⟩ :=
    (stops_cons rfl rest).append_inj (stops_cons rfl rest') (clear ha) (clear hb) h
  exact ⟨String.toList_inj.1 htext, List.tail_eq_of_cons_eq hrest⟩

/-- Where another tree follows there is a blank, and behind the last there is none. -/
theorem sexpsOnto_inj_of {ss ts : List Tree} (hts : ∀ t ∈ ts, t.numbersClear = true)
    (each : ∀ s ∈ ss, ∀ {t rest rest'}, t.numbersClear = true →
      s.sexpOnto rest = t.sexpOnto rest' → s = t ∧ rest = rest')
    (h : sexpsOnto ss (')' :: rest) = sexpsOnto ts (')' :: rest')) : ss = ts ∧ rest = rest' := by
  induction ss generalizing ts with
  | nil =>
    cases ts with
    | nil => exact ⟨rfl, List.tail_eq_of_cons_eq h⟩
    | cons => exact absurd (List.head_eq_of_cons_eq h) (by decide)
  | cons s ss ih =>
    cases ts with
    | nil => exact absurd (List.head_eq_of_cons_eq h) (by decide)
    | cons t ts =>
      obtain ⟨rfl, hmore⟩ :=
        each s List.mem_cons_self (hts t List.mem_cons_self) (List.tail_eq_of_cons_eq h)
      obtain ⟨rfl, hrest⟩ := ih (fun t ht => hts t (List.mem_cons_of_mem _ ht))
        (fun s hs => each s (List.mem_cons_of_mem _ hs)) hmore
      exact ⟨rfl, hrest⟩

/-- What is written for a tree determines the tree and what follows it. -/
theorem sexpOnto_inj (hs : s.numbersClear = true) (ht : t.numbersClear = true)
    (h : s.sexpOnto rest = t.sexpOnto rest') : s = t ∧ rest = rest' := by
  induction s using induction_on generalizing t rest rest' with
  | h s ih =>
    have below (u : Tree) (hu : u ∈ s.children) {t : Tree} {rest rest' : List Char}
        (ht : t.numbersClear = true) (h : u.sexpOnto rest = t.sexpOnto rest') :
        u = t ∧ rest = rest' :=
      ih u hu (numbersClear_of_mem_children hs u hu) ht h
    have clear := numbersClear_of_mem_children ht
    -- the tags are equal, so the parts of both trees are read in the same way
    cases sameForm_of_sexpOnto h with
    | binary | predicate =>
      simp only [children, List.mem_cons, List.not_mem_nil, or_false, forall_eq_or_imp,
        forall_eq] at below clear
      obtain ⟨rfl, hsecond⟩ := below.1 clear.1 (List.tail_eq_of_cons_eq (headOnto_inj h))
      obtain ⟨rfl, hrest⟩ := below.2 clear.2 (List.tail_eq_of_cons_eq hsecond)
      exact ⟨rfl, List.tail_eq_of_cons_eq hrest⟩
    | path | absolutePath =>
      obtain ⟨rfl, hrest⟩ := sexpsOnto_inj_of clear below (headOnto_inj h)
      exact ⟨rfl, hrest⟩
    | step =>
      obtain ⟨rfl, htest⟩ := axis_append_inj (List.tail_eq_of_cons_eq (headOnto_inj h))
      obtain ⟨rfl, hrest⟩ := below _ List.mem_cons_self (clear _ List.mem_cons_self) htest
      exact ⟨rfl, List.tail_eq_of_cons_eq hrest⟩
    | nameTest =>
      obtain ⟨rfl, hname⟩ := qualifierOnto_inj (List.tail_eq_of_cons_eq (headOnto_inj h))
      obtain ⟨rfl, hrest⟩ := quoteOnto_string_inj (List.tail_eq_of_cons_eq hname)
      exact ⟨rfl, List.tail_eq_of_cons_eq hrest⟩
    | call =>
      obtain ⟨rfl, hparts⟩ := quoteOnto_string_inj (List.tail_eq_of_cons_eq (headOnto_inj h))
      obtain ⟨rfl, hrest⟩ := sexpsOnto_inj_of clear below hparts
      exact ⟨rfl, hrest⟩
    | integer | decimal =>
      obtain ⟨rfl, hrest⟩ := number_append_inj hs ht (List.tail_eq_of_cons_eq (headOnto_inj h))
      exact ⟨rfl, hrest⟩
    | nodeType | literal | reference =>
      obtain ⟨rfl, hrest⟩ := quoteOnto_string_inj (List.tail_eq_of_cons_eq (headOnto_inj h))
      exact ⟨rfl, List.tail_eq_of_cons_eq hrest⟩

/-- Bracketed forms are equal only for equal trees, and none is a proper prefix of another. -/
theorem sexp_injective_and_prefixFree (hs : s.numbersClear = true) (ht : t.numbersClear = true) :
    (s.sexp = t.sexp ↔ s = t) ∧ (s.sexp.toList <+: t.sexp.toList ↔ s = t) := by
  have of_prefix (h : s.sexp.toList <+: t.sexp.toList) : s = t := by
    obtain ⟨more, hmore⟩ := h
    rw [← sexpOnto_eq, ← List.append_nil t.sexp.toList, ← sexpOnto_eq] at hmore
    exact (sexpOnto_inj hs ht hmore).1
  refine ⟨⟨fun h => of_prefix (h ▸ List.prefix_rfl), congrArg sexp⟩, of_prefix, ?_⟩
  rintro rfl
  exact List.prefix_rfl

theorem sexp_injective_and_prefixFree_nil :
    let s := path [nameTest none "a", integer "1"]
    let t := path [nameTest (some "nil") "a", integer "1"]
    s.numbersClear = true ∧ t.numbersClear = true ∧ s.sexp ≠ t.sexp ∧
      ¬s.sexp.toList <+: t.sexp.toList := by
  intro s t
  have hs : s.numbersClear = true := by decide
  have ht : t.numbersClear = true := by decide
  have hne : s ≠ t := by decide
  obtain ⟨forms, prefixes⟩ := sexp_injective_and_prefixFree hs ht
  exact ⟨hs, ht, fun h => hne (forms.1 h), fun h => hne (prefixes.1 h)⟩

example : (path [integer "1) (int 2"]).sexp = (path [integer "1", integer "2"]).sexp := by
  decide

/-! ### Trees of texts -/

theorem numbersClear_integer {text : String} (h : Text.isInteger text.toList = true) :
    (integer text).numbersClear = true := by
  obtain ⟨sign, digits, hsign, -, hdigits, htext⟩ := Text.isInteger_iff.1 h
  have clear : ')' ∉ sign ++ digits := by
    rw [List.mem_append]
    rintro (hc | hc)
    · rcases hsign with rfl | rfl <;> simp at hc
    · exact absurd (hdigits _ hc) (by decide)
  simpa [numbersClear, htext] using clear

theorem numbersClear_decimal {text : String} (h : Text.isDecimal text.toList = true) :
    (decimal text).numbersClear = true := by
  obtain ⟨sign, whole, fraction, hsign, -, hwhole, hfraction, htext⟩ := Text.isDecimal_iff.1 h
  have clear : ')' ∉ sign ++ whole ++ '.' :: fraction := by
    rw [List.mem_append, List.mem_append, List.mem_cons]
    rintro ((hc | hc) | hc | hc)
    · rcases hsign with rfl | rfl <;> simp at hc
    · exact absurd (hwhole _ hc) (by decide)
    · exact absurd hc (by decide)
    · exact absurd (hfraction _ hc) (by decide)
  simpa [numbersClear, htext] using clear

theorem numbersClear_of_wellFormed {role : Role} (h : t.wellFormed role = true) :
    t.numbersClear = true := by
  refine wellFormed_induction (fun _ t => t.numbersClear = true)
    ?_ ?_ ?_ ?_ ?_ ?_ ?_ ?_ ?_ ?_ ?_ h
  · intro t ht
    exact ht
  · intro op left right hl hr
    simp [numbersClear, hl, hr]
  · intro steps _ hs
    exact (allNumbersClear_iff steps).2 hs
  · intro steps hs
    exact (allNumbersClear_iff steps).2 hs
  · intro axis test htest
    cases test with
    | nameTest | nodeType => rfl
    | _ => cases htest
  · intro base filter hb hf
    simp [numbersClear, hb, hf]
  · intro name arguments _ _ ha
    exact (allNumbersClear_iff arguments).2 ha
  · intro text _
    rfl
  · intro text htext
    exact numbersClear_integer htext
  · intro text htext
    exact numbersClear_decimal htext
  · intro name _
    rfl

/-- Texts that are shown alike denote the same tree. -/
theorem eq_of_parse_of_sexp_eq {limits limits' : Limits} {a b : String}
    (ha : parse limits a = .ok (some s)) (hb : parse limits' b = .ok (some t))
    (h : s.sexp = t.sexp) : s = t := by
  have hs := numbersClear_of_wellFormed (wellFormed_of_parse ha)
  have ht := numbersClear_of_wellFormed (wellFormed_of_parse hb)
  have same : s.sexpOnto [] = t.sexpOnto [] := by rw [sexpOnto_eq, sexpOnto_eq, h]
  exact (sexpOnto_inj hs ht same).1

end XPathSyntax.Tree
