import XPathSyntax.Axis
import XPathSyntax.Proofs.Parser.Taking

/-! What a run of a parser comes to. A parser reads a set of phrases, token lists with their
values, if each of its runs either takes a phrase, or fails at a token behind which nothing can be
mended, or is cut off by its source while everything it has accepted can still become a phrase.
The same statement says that a run is determined by the tokens it has taken and the lookahead it
has seen. There is one rule for every way of putting parsers together. -/

namespace XPathSyntax

def SyntaxFault.found? : SyntaxFault → Option Token
  | expected _ found | trailing found => some found
  | unknownAxis _ | reported _ => none

namespace Parser

open Cursor (Takes Alike)

variable {α β : Type}

def Open (Phrase : List Token → α → Prop) (us : List Token) : Prop :=
  ∃ more a, Phrase (us ++ more) a

/-- Whether the names of axes are those of the thirteen. Texts have no other axis tokens. -/
def KnownAxis (x : Token) : Prop :=
  x.kind = .axis → Axis.ofName? x.text ≠ none

/-- Why a run that has taken `us` and sees `next` fails by itself. -/
inductive Reason (Phrase : List Token → α → Prop) (us : List Token) (next : Token) :
    (Nat → Error) → Prop where
  | stuck {fault : SyntaxFault} : Open Phrase us → fault.found? = some next →
      Reason Phrase us next (.syntactic fault)
  | tooDeep (limit : Nat) : Reason Phrase us next (.tooDeep limit)
  | unknownAxis {a : Token} : a ∈ us → ¬KnownAxis a →
      Reason Phrase us next (.syntactic (.unknownAxis a.text))

inductive Reads (p : Parser α) (Phrase : List Token → α → Prop) (c : Cursor) : Prop where
  | done {us : List Token} {a : α} {d : Cursor} : c.Takes us d → Phrase us a →
      (∀ {c' d'}, Alike c c' → c'.Takes us d' → Alike d d' → p.run c' = .done a d') →
      Reads p Phrase c
  | failed {us : List Token} {error : Nat → Error} {d : Cursor} : c.Takes us d →
      Reason Phrase us d.lookahead error →
      (∀ {c' d'}, Alike c c' → c'.Takes us d' → Alike d d' →
        p.run c' = .failed (error d'.feed.line) d') →
      Reads p Phrase c
  /-- The lookahead has been accepted, but the source fails to give the token behind it. -/
  | cut {us : List Token} {error : Error} {d e : Cursor} : c.Takes us d →
      d.lookahead.kind ≠ .endOfInput → advance.run d = .failed error e →
      ((∀ a ∈ us ++ [d.lookahead], KnownAxis a) → Open Phrase (us ++ [d.lookahead])) →
      (∀ {c' d' error' e'}, Alike c c' → c'.Takes us d' → Alike d d' →
        advance.run d' = .failed error' e' → p.run c' = .failed error' e') →
      Reads p Phrase c

theorem Open.mono {P : List Token → α → Prop} {Q : List Token → β → Prop} {us vs : List Token}
    (h : Open P us) (hPQ : ∀ ws a, P ws a → Open Q (vs ++ ws)) : Open Q (vs ++ us) := by
  obtain ⟨more, a, hP⟩ := h
  obtain ⟨more', b, hQ⟩ := hPQ _ _ hP
  exact ⟨more ++ more', b, by simpa only [List.append_assoc] using hQ⟩

/-- A reason found in a part of a run is one for the whole run. -/
theorem Reason.mono {P : List Token → α → Prop} {Q : List Token → β → Prop} {us vs : List Token}
    {next : Token} {error : Nat → Error} (h : Reason P us next error)
    (hPQ : ∀ ws a, P ws a → Open Q (vs ++ ws)) : Reason Q (vs ++ us) next error := by
  cases h with
  | stuck ho hf => exact .stuck (ho.mono hPQ) hf
  | tooDeep limit => exact .tooDeep limit
  | unknownAxis ha hn => exact .unknownAxis (List.mem_append_right _ ha) hn

namespace Reads

variable {c : Cursor}

theorem mono {p : Parser α} {P Q : List Token → α → Prop} (h : p.Reads P c)
    (hPQ : ∀ us a, P us a → Q us a) : p.Reads Q c := by
  have hopen : ∀ ws a, P ws a → Open Q ([] ++ ws) :=
    fun ws a hP => ⟨[], a, by simpa using hPQ _ _ hP⟩
  cases h with
  | done ht hP hrun => exact .done ht (hPQ _ _ hP) hrun
  | failed ht hr hrun => exact .failed ht (hr.mono hopen) hrun
  | cut ht hk ha ho hrun => exact .cut ht hk ha (fun known => (ho known).mono hopen) hrun

theorem of_done {p : Parser α} {P : List Token → α → Prop} {a : α} {d : Cursor}
    (h : p.Reads P c) (hrun : p.run c = .done a d) : ∃ us, c.Takes us d ∧ P us a := by
  cases h with
  | done ht hP hdone =>
    rw [hdone (.refl c) ht (.refl _)] at hrun
    cases hrun
    exact ⟨_, ht, hP⟩
  | failed ht _ hfailed =>
    rw [hfailed (.refl c) ht (.refl _)] at hrun
    cases hrun
  | cut ht _ ha _ hcut =>
    rw [hcut (.refl c) ht (.refl _) ha] at hrun
    cases hrun

theorem pure (a : α) {P : List Token → α → Prop} (hP : P [] a) :
    (Pure.pure a : Parser α).Reads P c := by
  refine .done (.nil c) hP ?_
  intro c' d' _ ht _
  rw [ht.eq_of_nil, run_pure]

/-- What has been taken by the first parser is part of what the second may rely on. -/
theorem bind {p : Parser α} {f : α → Parser β} {P : List Token → α → Prop}
    {Q : List Token → β → Prop} (hp : p.Reads P c) (hopen : ∀ us a, P us a → Open Q us)
    (hf : ∀ us a d, c.Takes us d → P us a → (f a).Reads (fun vs b => Q (us ++ vs) b) d) :
    (p >>= f).Reads Q c := by
  have hP : ∀ ws a, P ws a → Open Q ([] ++ ws) := hopen
  cases hp with
  | failed ht hr hrun =>
    refine .failed ht (hr.mono hP) ?_
    intro c' d' hc ht' hd
    exact run_bind_of_failed (hrun hc ht' hd)
  | cut ht hk ha ho hrun =>
    refine .cut ht hk ha (fun known => (ho known).mono hP) ?_
    intro c' d' error' e' hc ht' hd ha'
    exact run_bind_of_failed (hrun hc ht' hd ha')
  | @done us a d ht hPa hrun =>
    -- from here on the second parser decides, wherever the first one has led
    have between {vs e c' e'} (hv : d.Takes vs e) (hc : Alike c c') (ht' : c'.Takes (us ++ vs) e')
        (he : Alike e e') :
        ∃ d', Alike d d' ∧ d'.Takes vs e' ∧ (p >>= f).run c' = (f a).run d' := by
      obtain ⟨d', h, h'⟩ := ht'.split
      have hd : Alike d d' :=
        ht.alike h hc (by rw [hv.lookahead_eq, h'.lookahead_eq, he.lookahead])
      exact ⟨d', hd, h', run_bind_of_done (hrun hc h hd)⟩
    cases hf us a d ht hPa with
    | done hv hQ hrun' =>
      refine .done (ht.append hv) hQ ?_
      intro c' e' hc ht' he
      obtain ⟨d', hd, h', hb⟩ := between hv hc ht' he
      rw [hb, hrun' hd h' he]
    | failed hv hr hrun' =>
      refine .failed (ht.append hv) (hr.mono fun ws b hQ => ⟨[], b, by simpa using hQ⟩) ?_
      intro c' e' hc ht' he
      obtain ⟨d', hd, h', hb⟩ := between hv hc ht' he
      rw [hb, hrun' hd h' he]
    | cut hv hk ha ho hrun' =>
      refine .cut (ht.append hv) hk ha ?_ ?_
      · intro known
        rw [List.append_assoc] at known ⊢
        obtain ⟨more, b, hQ⟩ := ho fun a ha => known a (List.mem_append_right _ ha)
        exact ⟨more, b, by simpa only [List.append_assoc] using hQ⟩
      · intro c' e' error' g hc ht' he ha'
        obtain ⟨d', hd, h', hb⟩ := between hv hc ht' he
        rw [hb, hrun' hd h' he ha']

theorem look_bind {f : Token → Parser α} {P : List Token → α → Prop}
    (h : (f c.lookahead).Reads P c) : (look >>= f).Reads P c := by
  have run {c'} (hc : Alike c c') : (look >>= f).run c' = (f c.lookahead).run c' := by
    rw [hc.lookahead]
    rfl
  cases h with
  | done ht hP hrun => exact .done ht hP fun hc ht' hd => (run hc).trans (hrun hc ht' hd)
  | failed ht hr hrun => exact .failed ht hr fun hc ht' hd => (run hc).trans (hrun hc ht' hd)
  | cut ht hk ha ho hrun =>
    exact .cut ht hk ha ho fun hc ht' hd ha' => (run hc).trans (hrun hc ht' hd ha')

theorem advance (hk : c.lookahead.kind ≠ .endOfInput) :
    advance.Reads (fun us t => us = [t] ∧ t = c.lookahead) c := by
  cases ha : Parser.advance.run c with
  | done t d =>
    refine .done (.one hk ha) ⟨rfl, rfl⟩ ?_
    intro c' d' hc ht _
    obtain ⟨-, -, e, ha', he⟩ := ht.cons_inv
    rw [ha', he.eq_of_nil, hc.lookahead]
  | failed error e =>
    refine .cut (.nil c) hk ha (fun _ => ⟨[], c.lookahead, by simp⟩) ?_
    intro c' d' error' e' _ ht _ ha'
    rwa [ht.eq_of_nil]

/-- Taking the lookahead and going on. -/
theorem advance_bind {f : Token → Parser α} {P : List Token → α → Prop}
    (hk : c.lookahead.kind ≠ .endOfInput) (hopen : Open P [c.lookahead])
    (hf : ∀ d, c.Takes [c.lookahead] d →
      (f c.lookahead).Reads (fun vs a => P (c.lookahead :: vs) a) d) :
    (Parser.advance >>= f).Reads P c := by
  refine bind (advance hk) ?_ ?_
  · rintro us t ⟨rfl, rfl⟩
    exact hopen
  · rintro us t d ht ⟨rfl, rfl⟩
    exact hf d ht

theorem reject {fault : SyntaxFault} {P : List Token → α → Prop} (hopen : Open P [])
    (hf : fault.found? = some c.lookahead) : (Parser.reject fault : Parser α).Reads P c := by
  refine .failed (.nil c) (.stuck hopen hf) ?_
  intro c' d' _ ht _
  rw [ht.eq_of_nil]
  rfl

/-- An axis is taken before its name is found to be unknown. -/
theorem unknownAxis {f : Token → Parser α} {P : List Token → α → Prop}
    (hk : c.lookahead.kind = .axis) (hn : ¬KnownAxis c.lookahead)
    (hf : f c.lookahead = Parser.reject (.unknownAxis c.lookahead.text)) :
    (Parser.advance >>= f).Reads P c := by
  have hend : c.lookahead.kind ≠ .endOfInput := by simp [hk]
  cases ha : Parser.advance.run c with
  | done t d =>
    refine .failed (.one hend ha) (.unknownAxis List.mem_cons_self hn) ?_
    intro c' d' hc ht _
    obtain ⟨-, -, e, ha', he⟩ := ht.cons_inv
    rw [run_bind_of_done ha', he.eq_of_nil, ← hc.lookahead, hf]
    rfl
  | failed error e =>
    refine .cut (.nil c) hend ha (fun known => absurd (known _ List.mem_cons_self) hn) ?_
    intro c' d' error' e' _ ht _ ha'
    rw [ht.eq_of_nil]
    exact run_bind_of_failed ha'

theorem tooDeep (limit : Nat) {P : List Token → α → Prop} :
    (Parser.tooDeep limit : Parser α).Reads P c := by
  refine .failed (.nil c) (.tooDeep limit) ?_
  intro c' d' _ ht _
  rw [ht.eq_of_nil]
  rfl

theorem eat_bind {kind : Token.Kind} {f : Bool → Parser α} {P : List Token → α → Prop}
    (hk : kind ≠ .endOfInput)
    (hopen : c.lookahead.kind = kind → Open P [c.lookahead])
    (htrue : ∀ d, c.lookahead.kind = kind → c.Takes [c.lookahead] d →
      (f true).Reads (fun vs a => P (c.lookahead :: vs) a) d)
    (hfalse : c.lookahead.kind ≠ kind → (f false).Reads P c) :
    (eat kind >>= f).Reads P c := by
  rw [eat, bind_assoc]
  apply look_bind
  split
  next h =>
    rw [bind_assoc]
    apply advance_bind (h ▸ hk) (hopen h)
    intro d ht
    rw [pure_bind]
    exact htrue d h ht
  next h =>
    rw [pure_bind]
    exact hfalse h

theorem expect {kind : Token.Kind} (hk : kind ≠ .endOfInput) :
    (expect kind).Reads (fun us t => us = [t] ∧ t.kind = kind) c := by
  rw [Parser.expect]
  apply look_bind
  split
  next h =>
    apply (advance (h ▸ hk)).mono
    rintro us t ⟨rfl, rfl⟩
    exact ⟨rfl, h⟩
  next => exact reject ⟨[⟨kind, none, none⟩], ⟨kind, none, none⟩, rfl, rfl⟩ rfl

/-- A loop keeps what one round keeps. `P us a` says that the value `a` has been reached by taking
`us` since before the first round. -/
theorem whileNext {begins : Token.Kind → Option β} {round : β → α → Parser α}
    {hb : begins .endOfInput = none} {P : List Token → α → Prop}
    (hopen : ∀ us a x b, P us a → begins x.kind = some b → Open P (us ++ [x]))
    (hround : ∀ us a x b d, P us a → begins x.kind = some b →
      (round b a).Reads (fun vs a' => P (us ++ x :: vs) a') d)
    {us : List Token} {a : α} (hP : P us a) :
    (whileNext begins round a hb).Reads (fun vs a' => P (us ++ vs) a') c := by
  induction hn : c.remaining using Nat.strongRecOn generalizing c us a with
  | ind n ih =>
    subst hn
    rw [whileNext_eq]
    apply look_bind
    cases hbegin : begins c.lookahead.kind with
    | none => exact pure a (by simpa using hP)
    | some b =>
      have hk : c.lookahead.kind ≠ .endOfInput := by
        intro h
        rw [h, hb] at hbegin
        cases hbegin
      obtain ⟨more, a₁, hmore⟩ := hopen us a _ b hP hbegin
      refine advance_bind hk ⟨more, a₁, by simpa using hmore⟩ ?_
      intro d hd
      refine bind (hround us a _ b d hP hbegin) ?_ ?_
      · intro vs a' h
        exact ⟨[], a', by simpa using h⟩
      · intro vs a' e he h
        have less := (hd.append he).remaining_le
        simp only [List.length_append, List.length_singleton] at less
        have := ih e.remaining (by omega) h rfl
        simpa only [List.append_assoc, List.cons_append] using this

end Reads
end Parser
end XPathSyntax
