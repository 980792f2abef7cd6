import XPathSyntax.Proofs.Grammar.Soundness
import XPathSyntax.Proofs.Parser.Cost
import XPathSyntax.Proofs.Source.Tokens

/-! How a run over tokens can end. It accepts all of them, or it stops at a token that it has seen
and would stop there whatever followed, or it is told of a failure of the source when nothing before
the failure is wrong. -/

namespace XPathSyntax

open Grammar (Derives Viable)
open XPathSyntax.Parser (KnownAxis)

variable {limits : Limits} {ts us xs ys : List Token} {x y : Token} {more : Source}

theorem open_iff_viable :
    Parser.Open (fun us t => ∃ n, Derives .expression us t n) us ↔ Viable us := by
  constructor
  · rintro ⟨more, t, n, h⟩
    exact ⟨more, t, n, h⟩
  · rintro ⟨more, t, n, h⟩
    exact ⟨more, t, n, h⟩

/-- A run that ends by itself ends in the same way whatever follows the token that it has seen. -/
theorem parseSource_of_failed {d : Cursor} {error : Nat → Error}
    (hx : x.kind ≠ .endOfInput) (ht : (Cursor.first x xs more).Takes us d)
    (hrun : ∀ {c' d'}, Cursor.Alike (.first x xs more) c' → c'.Takes us d' → Cursor.Alike d d' →
      (Parser.sentence limits).run c' = .failed (error d'.feed.line) d')
    (hxs : x :: xs = us ++ y :: ys) (hface : d.Faces y ys more) (others : Source) :
    parseSource limits ((us ++ [y]).map .token ++ others) =
      .error (error (Token.lastLine (us ++ [y]))) := by
  obtain ⟨zs, hzs⟩ : ∃ zs, us ++ [y] = x :: zs := by
    cases us with
    | nil => exact ⟨[], by rw [(List.cons.inj hxs).1]; rfl⟩
    | cons u us => exact ⟨us ++ [y], by rw [(List.cons.inj hxs).1]; rfl⟩
  obtain ⟨d', ht', hface'⟩ :=
    (Cursor.faces_first x zs others).takes hzs.symm ht.kind_ne_endOfInput
  have alike : Cursor.Alike (.first x xs more) (.first x zs others) := ⟨rfl, rfl⟩
  have hd : Cursor.Alike d d' := by
    apply ht.alike ht' alike
    rw [hface.lookahead, hface'.lookahead]
  rw [hzs, parseSource_cons limits hx, hrun alike ht' hd, Cursor.line_eq_of_first ht',
    hface'.lookahead, ← hzs]
  rfl

inductive Ends (limits : Limits) (ts : List Token) (more : Source) :
    Except Error (Option Tree) → Prop where
  | accepted {t n} : more = [] → Derives .expression ts t n → Ends limits ts more (.ok (some t))
  /-- The token `y` does not fit behind the tokens `us`. -/
  | stuck {us y ys fault} : ts = us ++ y :: ys → Viable us → fault.found? = some y →
      (∀ others, parseSource limits ((us ++ [y]).map .token ++ others) =
        .error (.syntactic fault (Token.lastLine (us ++ [y])))) →
      Ends limits ts more (.error (.syntactic fault (Token.lastLine (us ++ [y]))))
  /-- The tokens are not enough. -/
  | unfinished {fault} : more = [] → Viable ts → fault.found? = some .endOfInput →
      Ends limits ts more (.error (.syntactic fault (Token.lastLine ts)))
  | tooDeep {limit line} : Ends limits ts more (.error (.tooDeep limit line))
  | unknownAxis {a line} : a ∈ ts → ¬KnownAxis a →
      Ends limits ts more (.error (.syntactic (.unknownAxis a.text) line))
  | cut {error rest} : more = .failure error :: rest →
      ((∀ a ∈ ts, KnownAxis a) → Viable ts) → Ends limits ts more (.error error)

/-- A sentence ends where the input ends. -/
theorem Parser.lookahead_of_sentence {c d : Cursor} {t : Tree}
    (h : (sentence limits).run c = .done t d) : d.lookahead.kind = .endOfInput := by
  rw [sentence, run_bind] at h
  split at h
  next whole c' _ =>
    rw [run_look_bind] at h
    split at h
    next hk =>
      cases h
      exact hk
    next => cases h
  next => cases h

theorem ends_of_tokens (limits : Limits) (hts : ∀ z ∈ ts, z.kind ≠ .endOfInput) (hne : ts ≠ [])
    (hmore : Cursor.Closed more) :
    Ends limits ts more (parseSource limits (ts.map .token ++ more)) := by
  obtain ⟨x, xs, rfl⟩ := List.exists_cons_of_ne_nil hne
  have hx := hts x List.mem_cons_self
  have hface := Cursor.faces_first x xs more
  have parsed := parseSource_cons limits hx xs more
  cases Parser.reads_sentence limits (.first x xs more) with
  | done ht hP hrun =>
    have run := hrun (.refl _) ht (.refl _)
    have hend := Parser.lookahead_of_sentence run
    obtain ⟨n, hd⟩ := hP
    rw [parsed, run]
    rcases hface.of_takes hmore ht with ⟨y, ys, hxs, hd'⟩ | ⟨hnil, rfl, -⟩
    · rw [hd'.lookahead] at hend
      exact absurd hend (hts y (by rw [hxs]; simp))
    · exact .accepted hnil hd
  | @failed us _ d ht hr hrun =>
    have place := hface.of_takes hmore ht
    have line := Cursor.line_eq_of_first ht
    cases hr with
    | tooDeep =>
      rw [parsed, hrun (.refl _) ht (.refl _)]
      exact .tooDeep
    | unknownAxis ha hn =>
      rw [parsed, hrun (.refl _) ht (.refl _)]
      refine .unknownAxis ?_ hn
      rcases place with ⟨y, ys, hxs, -⟩ | ⟨-, rfl, -⟩
      · rw [hxs]
        exact List.mem_append_left _ ha
      · exact ha
    | stuck hopen hfound =>
      have viable := open_iff_viable.1 hopen
      rcases place with ⟨y, ys, hxs, hd⟩ | ⟨hnil, rfl, hd⟩
      · have stuck := parseSource_of_failed hx ht hrun hxs hd
        rw [hd.lookahead] at hfound line
        rw [parsed, hrun (.refl _) ht (.refl _), line]
        exact .stuck hxs viable hfound stuck
      · rw [hd] at hfound line
        rw [Token.lastLine_append] at line
        rw [parsed, hrun (.refl _) ht (.refl _), line]
        exact .unfinished hnil viable hfound
  | @cut us error d e ht hk ha hopen hrun =>
    rw [parsed, hrun (.refl _) ht (.refl _) ha]
    rcases hface.of_takes hmore ht with ⟨y, ys, hxs, hd⟩ | ⟨-, -, hd⟩
    · cases ys with
      | cons z zs =>
        obtain ⟨e', he, -⟩ := hd.advance
        rw [he] at ha
        cases ha
      | nil =>
        rw [hd.lookahead, ← hxs] at hopen
        rcases hmore with rfl | ⟨error', rest, rfl⟩
        · obtain ⟨e', he, -⟩ := hd.advance_end
          rw [he] at ha
          cases ha
        · obtain ⟨e', he⟩ := hd.advance_failure
          rw [he] at ha
          cases ha
          exact .cut rfl fun known => open_iff_viable.1 (hopen known)
    · exact absurd (by rw [hd]; rfl) hk

end XPathSyntax
