import Mathlib.Control.Monad.Basic
import XPathSyntax.Parse
import XPathSyntax.Tree.Equality

/-! Raising the limits. The same source is parsed under two limits, one as wide as the other or
wider. Step by step the two runs are the same, up to the point where the narrow one is cut off by a
limit that has been raised; so raising a limit changes no result but that of a run that was cut
off. -/

namespace XPathSyntax

namespace Parser

variable {α β : Type}

/-- Two outcomes of a run, the first under narrow limits and the second under wide ones. -/
inductive CutOff (narrow wide : Limits) : Outcome α → Outcome α → Prop where
  | same (o : Outcome α) : CutOff narrow wide o o
  | nesting {line : Nat} {c : Cursor} (o : Outcome α) : narrow.nesting < wide.nesting →
      CutOff narrow wide (.failed (.tooDeep narrow.nesting line) c) o
  | height {line : Nat} {c : Cursor} (o : Outcome α) : narrow.height < wide.height →
      CutOff narrow wide (.failed (.tooDeep narrow.height line) c) o

variable {narrow wide : Limits} {p q : Parser α} {f g : α → Parser β} {c : Cursor}

/-- What cuts the first part off, or fails it on both sides, ends the whole. -/
theorem CutOff.bind (hp : CutOff narrow wide (p.run c) (q.run c))
    (hf : ∀ a d, p.run c = .done a d → CutOff narrow wide ((f a).run d) ((g a).run d)) :
    CutOff narrow wide ((p >>= f).run c) ((q >>= g).run c) := by
  generalize ho : p.run c = o at hp hf
  generalize ho' : q.run c = o' at hp
  cases hp with
  | same =>
    cases o with
    | done a d =>
      rw [run_bind_of_done ho, run_bind_of_done ho']
      exact hf a d rfl
    | failed error d =>
      rw [run_bind_of_failed ho, run_bind_of_failed ho']
      exact .same _
  | nesting _ h =>
    rw [run_bind_of_failed ho]
    exact .nesting _ h
  | height _ h =>
    rw [run_bind_of_failed ho]
    exact .height _ h

/-- From every cursor the runs of the two parsers are the same, or the first is cut off. -/
def Narrows (narrow wide : Limits) (p q : Parser α) : Prop :=
  ∀ c, CutOff narrow wide (p.run c) (q.run c)

namespace Narrows

theorem refl (p : Parser α) : Narrows narrow wide p p :=
  fun _ => .same _

theorem bind (hp : Narrows narrow wide p q) (hf : ∀ a, Narrows narrow wide (f a) (g a)) :
    Narrows narrow wide (p >>= f) (q >>= g) :=
  fun c => (hp c).bind fun a d _ => hf a d

theorem bind_left (hp : Narrows narrow wide p q) (f : α → Parser β) :
    Narrows narrow wide (p >>= f) (q >>= f) :=
  hp.bind fun _ => refl _

theorem bind_right (p : Parser α) (hf : ∀ a, Narrows narrow wide (f a) (g a)) :
    Narrows narrow wide (p >>= f) (p >>= g) :=
  (refl p).bind hf

/-- Both loops take the same tokens, so they are in the same round until one is cut off. -/
theorem whileNext {begins : Token.Kind → Option β} {round round' : β → α → Parser α}
    (hb : begins .endOfInput = none)
    (hround : ∀ b a, Narrows narrow wide (round b a) (round' b a)) (a : α) :
    Narrows narrow wide (whileNext begins round a hb) (whileNext begins round' a hb) := by
  intro c
  induction hn : c.remaining using Nat.strongRecOn generalizing a c with
  | ind n ih =>
    subst hn
    rw [whileNext_eq, whileNext_eq]
    refine CutOff.bind (.same _) fun token d hlook => ?_
    cases hlook
    cases hk : begins c.lookahead.kind with
    | none => exact .same _
    | some b =>
      have hkind : c.lookahead.kind ≠ .endOfInput := by
        intro h
        rw [h, hb] at hk
        cases hk
      refine CutOff.bind (.same _) fun token d ha => ?_
      refine CutOff.bind (hround b a d) fun a' d' hr => ?_
      have := remaining_lt_of_advance hkind ha
      have := remaining_le_of_done hr
      exact ih d'.remaining (by omega) a' d' rfl

theorem separatedBy (h : Narrows narrow wide p q) (mark : Token.Kind) (hm : mark ≠ .endOfInput) :
    Narrows narrow wide (separatedBy mark p hm) (separatedBy mark q hm) := by
  refine h.bind fun first => bind_left ?_ _
  exact whileNext _ (fun _ _ => h.bind_left _) _

variable {inside inside' : Entry → Parser Subtree} {expression expression' : Parser Subtree}

theorem arguments (h : Narrows narrow wide expression expression') :
    Narrows narrow wide (arguments expression) (arguments expression') := by
  refine bind_right _ fun found => ?_
  split
  · exact refl _
  · exact h.separatedBy _ _

section

variable (hh : narrow.height ≤ wide.height)

include hh

theorem grow (tree : Tree) (below : Nat) :
    Narrows narrow wide (grow narrow tree below) (grow wide tree below) := by
  intro c
  unfold Parser.grow
  rcases Nat.eq_or_lt_of_le hh with heq | hlt
  · rw [heq]
    exact .same _
  · split
    next => exact .height _ hlt
    next hnarrow =>
      rw [if_neg (by omega)]
      exact .same _

theorem chain (l : Level) {operand operand' : Parser Subtree}
    (h : Narrows narrow wide operand operand') :
    Narrows narrow wide (chain narrow l operand) (chain wide l operand') :=
  h.bind fun first => whileNext _ (fun _ _ => h.bind fun _ => grow hh _ _) first

theorem pathOver (parts : List Subtree) :
    Narrows narrow wide (pathOver narrow parts) (pathOver wide parts) := by
  unfold Parser.pathOver
  split
  · exact refl _
  · exact grow hh _ _

section

variable (h : Narrows narrow wide expression expression')

include h

theorem plainStep :
    Narrows narrow wide (plainStep narrow expression) (plainStep wide expression') := by
  refine bind_right _ fun found => ?_
  cases found.kind with
  | name =>
    refine bind_right _ fun name => bind_right _ fun called => ?_
    split
    · exact (arguments h).bind fun parts => bind_right _ fun _ => grow hh _ _
    · exact bind_right _ fun test => grow hh _ _
  | nodeType => exact bind_right _ fun name => grow hh _ _
  | axis =>
    refine bind_right _ fun name => ?_
    dsimp only
    cases Axis.ofName? name.text with
    | none => exact refl _
    | some axis => exact bind_right _ fun test => grow hh _ _
  | _ => exact refl _

theorem predicates (step : Subtree) :
    Narrows narrow wide (predicates narrow expression step) (predicates wide expression' step) :=
  whileNext _ (fun _ _ => h.bind fun _ => bind_right _ fun _ => grow hh _ _) step

theorem step : Narrows narrow wide (step narrow expression) (step wide expression') :=
  (plainStep hh h).bind (predicates hh h)

theorem steps : Narrows narrow wide (steps narrow expression) (steps wide expression') :=
  (step hh h).separatedBy _ _

theorem relativePath :
    Narrows narrow wide (relativePath narrow expression) (relativePath wide expression') :=
  (steps hh h).bind (pathOver hh)

theorem absolutePath :
    Narrows narrow wide (absolutePath narrow expression) (absolutePath wide expression') := by
  refine bind_right _ fun slash => bind_right _ fun found => ?_
  split
  · exact (steps hh h).bind fun parts => grow hh _ _
  · exact grow hh _ _

theorem member : Narrows narrow wide (member narrow expression) (member wide expression') := by
  refine bind_right _ fun found => ?_
  cases found.kind with
  | name | nodeType | axis => exact relativePath hh h
  | slash => exact absolutePath hh h
  | openParen => exact bind_right _ fun _ => h.bind_left _
  | _ => exact refl _

end

section

variable (h : ∀ entry, Narrows narrow wide (inside entry) (inside' entry))

include h

theorem product : Narrows narrow wide (product narrow inside) (product wide inside') := by
  refine (chain hh .union (member hh (h .expression))).bind fun left => ?_
  refine bind_right _ fun found => ?_
  cases operatorAt .multiplicative found.kind with
  | none => exact refl _
  | some op => exact bind_right _ fun _ => (h .product).bind fun right => grow hh _ _

theorem ladder : Narrows narrow wide (ladder narrow inside) (ladder wide inside') := by
  unfold Parser.ladder
  induction looseLevels with
  | nil => exact product hh h
  | cons l levels ih => exact chain hh l ih

end

end

/-- Where the narrow limit lets no more levels be opened, the wide one lets none either if it is the
same, and otherwise the run is cut off. -/
theorem entered (hn : narrow.nesting ≤ wide.nesting) (hh : narrow.height ≤ wide.height)
    (left : Nat) (entry : Entry) :
    Narrows narrow wide (entered narrow left entry)
      (entered wide (left + (wide.nesting - narrow.nesting)) entry) := by
  induction left generalizing entry with
  | zero =>
    intro c
    rcases Nat.eq_or_lt_of_le hn with heq | hlt
    · rw [heq, Nat.sub_self]
      change CutOff narrow wide ((tooDeep narrow.nesting).run c) ((tooDeep wide.nesting).run c)
      rw [heq]
      exact .same _
    · exact .nesting _ hlt
  | succ left ih =>
    rw [Nat.succ_add]
    cases entry with
    | expression => exact ladder hh ih
    | product => exact product hh ih

theorem sentence (hn : narrow.nesting ≤ wide.nesting) (hh : narrow.height ≤ wide.height) :
    Narrows narrow wide (sentence narrow) (sentence wide) := by
  have h := entered hn hh narrow.nesting .expression
  rw [Nat.add_sub_cancel' hn] at h
  exact h.bind_left _

theorem root (hn : narrow.nesting ≤ wide.nesting) (hh : narrow.height ≤ wide.height) :
    Narrows narrow wide (root narrow) (root wide) := by
  refine bind_right _ fun _ => bind_right _ fun found => ?_
  split
  · exact refl _
  · exact (sentence hn hh).bind_left _

end Narrows
end Parser

section

variable {narrow wide : Limits}

theorem parseSource_eq_or_cutOff (hn : narrow.nesting ≤ wide.nesting)
    (hh : narrow.height ≤ wide.height) (source : Source) :
    parseSource narrow source = parseSource wide source ∨
      narrow.nesting < wide.nesting ∧
        (∃ line, parseSource narrow source = .error (.tooDeep narrow.nesting line)) ∨
      narrow.height < wide.height ∧
        ∃ line, parseSource narrow source = .error (.tooDeep narrow.height line) := by
  have runs := Parser.Narrows.root hn hh ⟨.endOfInput, Feed.ofSource source⟩
  unfold parseSource
  generalize (Parser.root narrow).run _ = o at runs ⊢
  generalize (Parser.root wide).run _ = o' at runs ⊢
  cases runs with
  | same => exact .inl rfl
  | nesting _ h => exact .inr (.inl ⟨h, _, rfl⟩)
  | height _ h => exact .inr (.inr ⟨h, _, rfl⟩)

/-- What is not cut off under the narrow limits is the same under the wide ones. -/
theorem parseSource_eq_of_ne_tooDeep (hn : narrow.nesting ≤ wide.nesting)
    (hh : narrow.height ≤ wide.height) {source : Source} {result : Except Error (Option Tree)}
    (h : parseSource narrow source = result)
    (hne : ∀ limit line, result ≠ .error (.tooDeep limit line)) :
    parseSource wide source = result := by
  rcases parseSource_eq_or_cutOff hn hh source with heq | ⟨-, line, he⟩ | ⟨-, line, he⟩
  · rwa [← heq]
  · exact absurd (h.symm.trans he) (hne _ _)
  · exact absurd (h.symm.trans he) (hne _ _)

/-- Whatever the source yields, the run under the narrower limits gives what the run under the
wider ones gives, or it is cut off by a limit that is lower. -/
theorem limits_only_cut_off (hn : narrow.nesting ≤ wide.nesting)
    (hh : narrow.height ≤ wide.height) (source : Source) :
    (parseSource narrow source = parseSource wide source ∨
      narrow.nesting < wide.nesting ∧
        (∃ line, parseSource narrow source = .error (.tooDeep narrow.nesting line)) ∨
      narrow.height < wide.height ∧
        ∃ line, parseSource narrow source = .error (.tooDeep narrow.height line)) ∧
    (∀ result, parseSource narrow source = .ok result → parseSource wide source = .ok result) ∧
    ∀ error, parseSource narrow source = .error error →
      (∀ limit line, error ≠ .tooDeep limit line) → parseSource wide source = .error error := by
  refine ⟨parseSource_eq_or_cutOff hn hh source, ?_, ?_⟩
  · intro result h
    exact parseSource_eq_of_ne_tooDeep hn hh h (by simp)
  · intro error h hne
    exact parseSource_eq_of_ne_tooDeep hn hh h (by simpa using hne)

end

/-- Raising the limit of nesting lets `(1)` be accepted, and changes neither the tree of a source
that goes on behind a gap nor the failure of one that stops in the middle. -/
theorem limits_only_cut_off_at_nesting :
    let one : Source.Item := .token ⟨.integer, some "1", none⟩
    let opened : Source.Item := .token ⟨.openParen, none, none⟩
    let closed : Source.Item := .token ⟨.closeParen, none, none⟩
    let failure : Source.Item := .failure (.lexical .unterminatedLiteral 3)
    let narrow : Limits := ⟨1, 4⟩
    let wide : Limits := ⟨2, 4⟩
    parseSource narrow [opened, one, closed] = .error (.tooDeep 1 1) ∧
      parseSource wide [opened, one, closed] = .ok (some (.integer "1")) ∧
      parseSource wide [one, .gap, failure] = .ok (some (.integer "1")) ∧
      parseSource wide [one, failure] = .error (.lexical .unterminatedLiteral 3) := by
  intro one opened closed failure narrow wide
  have cut (source : Source) := limits_only_cut_off (show narrow.nesting ≤ wide.nesting by decide)
    (show narrow.height ≤ wide.height by decide) source
  refine ⟨by decide +kernel, by decide +kernel, ?_, ?_⟩
  · exact (cut [one, .gap, failure]).2.1 _ (by decide +kernel)
  · exact (cut [one, failure]).2.2 _ (by decide +kernel) nofun

end XPathSyntax
