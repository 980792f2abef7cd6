import XPathSyntax.Proofs.Grammar.Soundness
import XPathSyntax.Proofs.Source.Tokens

/-! What is asked of a source. A parse asks for one item after another and stops asking as soon as
it has been told of a failure, of the end of input or that the source is dry. What it comes to is
determined by the items it has asked for, and whatever the source would yield behind them is left
where it is. -/

namespace XPathSyntax

open XPathSyntax.Parser (advance)

namespace Source

def Item.GoesOn : Item → Prop
  | token x => x.kind ≠ .endOfInput
  | failure _ | gap => False

def Item.token? : Item → Option Token
  | token x => some x
  | failure _ | gap => none

/-- The source yields these items first, if it is asked for them. Behind its last item it is dry
whenever it is asked. -/
def Answers : Source → List Item → Prop
  | _, [] => True
  | source, item :: items => source.headD .gap = item ∧ Answers source.tail items

theorem answers_append {source : Source} {items more : List Item} :
    source.Answers (items ++ more) ↔
      source.Answers items ∧ Answers (source.drop items.length) more := by
  induction items generalizing source with
  | nil => simp [Answers]
  | cons item items ih =>
    rw [List.cons_append, Answers, Answers, ih, List.drop_tail, List.length_cons, and_assoc]

def lastLine (items : List Item) : Nat :=
  Token.lastLine (items.filterMap Item.token?)

end Source

open Source (Item)

namespace Feed

variable {f f' f'' : Feed} {items more : List Item}

inductive Receives (f : Feed) : Item → Except Error Token → Feed → Prop where
  | token (x : Token) : Receives f (.token x) (.ok x)
      { f with pending := f.pending.tail, line := x.line.getD f.line }
  | failure (error : Error) : Receives f (.failure error) (.error error)
      { f with pending := f.pending.tail }
  | gap : Receives f .gap (.ok .endOfInput)
      { f with pending := f.pending.tail, exhausted := true }

theorem receives_next (hf : f.exhausted = false) :
    f.Receives (f.pending.headD .gap) f.next.1 f.next.2 := by
  obtain ⟨pending, exhausted, line⟩ := f
  cases hf
  cases pending with
  | nil => exact .gap
  | cons item rest =>
    cases item with
    | token x => exact .token x
    | failure error => exact .failure error
    | gap => exact .gap

/-- The source is asked once for each of the items and yields them, which leaves `f'` of the feed
`f`. A feed that has run dry asks no more. -/
inductive Polls : Feed → List Item → Feed → Prop where
  | nil (f : Feed) : Polls f [] f
  | cons {f f' : Feed} {items : List Item} : f.exhausted = false → Polls f.next.2 items f' →
      Polls f (f.pending.headD .gap :: items) f'

def chances (f : Feed) : Nat :=
  if f.exhausted then 0 else f.pending.length + 1

theorem chances_next_lt (hf : f.exhausted = false) : f.next.2.chances < f.chances := by
  unfold next chances
  rw [hf]
  cases f.pending with
  | nil => simp
  | cons item rest => cases item <;> simp

namespace Polls

theorem append (h : f.Polls items f') (h' : f'.Polls more f'') : f.Polls (items ++ more) f'' := by
  induction h with
  | nil => exact h'
  | cons hf _ ih => exact .cons hf (ih h')

/-- The line of a feed is that of the last token it has been given with one. -/
theorem line_eq (h : f.Polls items f') :
    f'.line = ((items.filterMap Item.token?).filterMap (·.line)).getLast?.getD f.line := by
  induction h with
  | nil => rfl
  | @cons f f' items hf _ ih =>
    rw [ih]
    have receives := receives_next hf
    generalize f.pending.headD .gap = item at receives ⊢
    generalize f.next.1 = result, f.next.2 = next at receives ⊢
    cases receives with
    | token x => cases hline : x.line <;> simp [Item.token?, hline, List.getLast?_cons]
    | failure | gap => rfl

/-- The items are those with which the source begins, and the others are left. -/
theorem answers (h : f.Polls items f') :
    f.pending.Answers items ∧ f'.pending = f.pending.drop items.length := by
  induction h with
  | nil => exact ⟨trivial, rfl⟩
  | @cons f f' items hf _ ih =>
    have hpending : f.next.2.pending = f.pending.tail := by
      have receives := receives_next hf
      generalize f.pending.headD .gap = item, f.next.1 = result, f.next.2 = next at receives ⊢
      cases receives <;> rfl
    rw [hpending] at ih
    exact ⟨⟨rfl, ih.1⟩, by rw [ih.2, List.drop_tail, List.length_cons]⟩

theorem length_le (h : f.Polls items f') : items.length + f'.chances ≤ f.chances := by
  induction h with
  | nil => simp
  | cons hf _ ih =>
    have := chances_next_lt hf
    rw [List.length_cons]
    omega

/-- What has been asked for is determined by what is left. -/
theorem unique (h : f.Polls items f') (h' : f.Polls more f') : items = more := by
  induction h generalizing more with
  | nil f =>
    have := h'.length_le
    exact (List.length_eq_zero_iff.1 (by omega)).symm
  | cons hf h ih =>
    cases h' with
    | nil =>
      have := (Polls.cons hf h).length_le
      rw [List.length_cons] at this
      omega
    | cons _ h' => rw [ih h']

end Polls
end Feed

namespace Cursor

variable {c c' d e : Cursor} {us : List Token} {items : List Item} {x : Token} {error : Error}

inductive Receives (c : Cursor) : Item → Outcome Token → Prop where
  | token (x : Token) : Receives c (.token x) (.done c.lookahead
      ⟨x, { c.feed with pending := c.feed.pending.tail, line := x.line.getD c.feed.line }⟩)
  | failure (error : Error) : Receives c (.failure error) (.failed error
      ⟨c.lookahead, { c.feed with pending := c.feed.pending.tail }⟩)
  | gap : Receives c .gap (.done c.lookahead
      ⟨.endOfInput, { c.feed with pending := c.feed.pending.tail, exhausted := true }⟩)

theorem receives_advance (hc : c.feed.exhausted = false) :
    c.Receives (c.feed.pending.headD .gap) (advance.run c) := by
  have receives := Feed.receives_next hc
  unfold advance
  dsimp only
  generalize c.feed.pending.headD .gap = item, c.feed.next = next at receives ⊢
  obtain ⟨result, feed⟩ := next
  cases receives with
  | token x => exact .token x
  | failure error => exact .failure error
  | gap => exact .gap

theorem feed_of_advance (h : advance.run c = .done x d) : c.feed.next.2 = d.feed := by
  unfold advance at h
  dsimp only at h
  split at h
  next hn =>
    cases h
    rw [hn]
  next => cases h

/-- A token behind which more can be taken is one behind which more can be asked for. -/
theorem goesOn_of_advance (hc : c.feed.exhausted = false) (h : advance.run c = .done x d)
    (hk : d.lookahead.kind ≠ .endOfInput) : (c.feed.pending.headD .gap).GoesOn := by
  have receives := receives_advance hc
  rw [h] at receives
  generalize c.feed.pending.headD .gap = item at receives ⊢
  cases receives with
  | token => exact hk
  | gap => exact absurd rfl hk

theorem head_of_advance_failed (hc : c.feed.exhausted = false)
    (h : advance.run c = .failed error d) : c.feed.pending.headD .gap = .failure error := by
  have receives := receives_advance hc
  rw [h] at receives
  generalize c.feed.pending.headD .gap = item at receives ⊢
  cases receives
  rfl

theorem advance_of_failure (hc : c.feed.exhausted = false)
    (h : c.feed.pending.headD .gap = .failure error) :
    ∃ d, advance.run c = .failed error d ∧ c.feed.Polls [.failure error] d.feed := by
  have receives := receives_advance hc
  rw [h] at receives
  have polls : c.feed.Polls [.failure error] c.feed.next.2 := h ▸ .cons hc (.nil _)
  have heq : (advance.run c).cursor.feed = c.feed.next.2 := by
    unfold advance
    dsimp only
    split <;> simp_all [Outcome.cursor]
  generalize advance.run c = o at receives heq ⊢
  cases receives
  exact ⟨_, rfl, heq ▸ polls⟩

/-- Alike, and the one has run dry if the other one has. -/
structure Twin (c d : Cursor) : Prop extends Alike c d where
  exhausted : c.feed.exhausted = d.feed.exhausted

theorem Twin.advance (h : Twin c c') (hc : c.feed.exhausted = false)
    (hhead : c'.feed.pending.headD .gap = c.feed.pending.headD .gap)
    (ha : Parser.advance.run c = .done x d) :
    ∃ d', Parser.advance.run c' = .done c'.lookahead d' ∧ Twin d d' ∧
      d'.feed.pending = c'.feed.pending.tail := by
  have hc' : c'.feed.exhausted = false := h.exhausted ▸ hc
  have receives := receives_advance hc
  have receives' := receives_advance hc'
  rw [ha] at receives
  rw [hhead] at receives'
  generalize c.feed.pending.headD .gap = item at receives receives'
  generalize Parser.advance.run c' = o at receives' ⊢
  cases receives with
  | token x =>
    cases receives'
    exact ⟨_, rfl, ⟨⟨rfl, by rw [h.line]⟩, h.exhausted⟩, rfl⟩
  | gap =>
    cases receives'
    exact ⟨_, rfl, ⟨⟨rfl, h.line⟩, rfl⟩, rfl⟩

/-- The tokens `us` are taken one by one from `c`, for which its source is asked for these items. -/
inductive Asks : Cursor → List Token → List Item → Cursor → Prop where
  | nil (c : Cursor) : Asks c [] [] c
  | cons {c d e : Cursor} {us : List Token} {items : List Item} :
      c.lookahead.kind ≠ .endOfInput → c.feed.exhausted = false →
      advance.run c = .done c.lookahead d → Asks d us items e →
      Asks c (c.lookahead :: us) (c.feed.pending.headD .gap :: items) e

/-- A cursor that has run dry sees the end of input. -/
def Fresh (c : Cursor) : Prop :=
  c.feed.exhausted = true → c.lookahead.kind = .endOfInput

theorem Fresh.exhausted (h : c.Fresh) (hk : c.lookahead.kind ≠ .endOfInput) :
    c.feed.exhausted = false := by
  rw [Bool.eq_false_iff]
  exact fun hc => hk (h hc)

theorem Fresh.advance (h : c.Fresh) (hk : c.lookahead.kind ≠ .endOfInput)
    (ha : advance.run c = .done x d) : d.Fresh := by
  have hc := h.exhausted hk
  have receives := receives_advance hc
  rw [ha] at receives
  generalize c.feed.pending.headD .gap = item at receives
  cases receives with
  | token =>
    intro hd
    rw [hc] at hd
    cases hd
  | gap => exact fun _ => rfl

/-- What has been taken has been asked for. -/
theorem Takes.asks (h : c.Takes us d) (hc : c.Fresh) : d.Fresh ∧ ∃ items, c.Asks us items d := by
  induction h with
  | nil c => exact ⟨hc, [], .nil c⟩
  | cons hk ha _ ih =>
    obtain ⟨he, items, hasks⟩ := ih (hc.advance hk ha)
    exact ⟨he, _, .cons hk (hc.exhausted hk) ha hasks⟩

namespace Asks

theorem takes (h : c.Asks us items d) : c.Takes us d := by
  induction h with
  | nil c => exact .nil c
  | cons hk _ ha _ ih => exact .cons hk ha ih

theorem polls (h : c.Asks us items d) : c.feed.Polls items d.feed := by
  induction h with
  | nil c => exact .nil c.feed
  | cons _ hc ha _ ih =>
    refine .cons hc ?_
    rwa [feed_of_advance ha]

/-- Behind every item but the last one something else has been asked for. -/
theorem goesOn (h : c.Asks us items d) : (∀ item ∈ items.dropLast, item.GoesOn) ∧
    (d.lookahead.kind ≠ .endOfInput → ∀ item ∈ items, item.GoesOn) := by
  induction h with
  | nil c => simp
  | @cons c d e us items _ hc ha h ih =>
    have first (hk : d.lookahead.kind ≠ .endOfInput) : (c.feed.pending.headD .gap).GoesOn :=
      goesOn_of_advance hc ha hk
    cases h with
    | nil => simpa using first
    | cons hk hd ha' h' =>
      rw [List.dropLast_cons_of_ne_nil (List.cons_ne_nil _ _)]
      refine ⟨List.forall_mem_cons.2 ⟨first hk, ih.1⟩, ?_⟩
      intro he
      exact List.forall_mem_cons.2 ⟨first hk, ih.2 he⟩

theorem failure_not_mem (h : c.Asks us items d) (error : Error) : .failure error ∉ items := by
  induction h with
  | nil c => exact List.not_mem_nil
  | @cons c d e us items _ hc ha _ ih =>
    have receives := receives_advance hc
    rw [ha] at receives
    rw [List.mem_cons, not_or]
    refine ⟨?_, ih⟩
    intro hitem
    rw [← hitem] at receives
    cases receives

/-- Any source that yields the same items is asked for them in the same way. -/
theorem replay (h : c.Asks us items d) (hc : Twin c c') (hitems : c'.feed.pending.Answers items) :
    ∃ d', c'.Asks us items d' ∧ Twin d d' := by
  induction h generalizing c' with
  | nil c => exact ⟨c', .nil c', hc⟩
  | @cons c d e us items hk hexhausted ha h ih =>
    obtain ⟨hhead, htail⟩ := hitems
    obtain ⟨d', ha', hd, hpending⟩ := hc.advance hexhausted hhead ha
    rw [← hpending] at htail
    obtain ⟨e', hasks, he⟩ := ih hd htail
    rw [hc.lookahead] at hk ha ⊢
    rw [← hhead]
    exact ⟨e', .cons hk (hc.exhausted ▸ hexhausted) ha' hasks, he⟩

end Asks
end Cursor

def unread (limits : Limits) (source : Source) : Feed :=
  ((Parser.root limits).run ⟨.endOfInput, .ofSource source⟩).cursor.feed

/-- A parse asks for these items and no others, and they determine its result. -/
structure Consults (limits : Limits) (items : List Item) (result : Except Error (Option Tree)) :
    Prop where
  /-- Only the last item can be a failure, an end of input, or say that the source is dry. -/
  goesOn : ∀ item ∈ items.dropLast, item.GoesOn
  /-- Any source that begins with the items gives the result, and is asked for nothing else. -/
  reads : ∀ source : Source, source.Answers items →
    parseSource limits source = result ∧ (Feed.ofSource source).Polls items (unread limits source)
  of_failure : ∀ error, .failure error ∈ items → result = .error error
  /-- Other errors are on the line of the last token that has one. -/
  of_error : ∀ error, result = .error error → .failure error ∈ items ∨
    (∃ fault, error = .syntactic fault (Source.lastLine items)) ∨
      ∃ limit, error = .tooDeep limit (Source.lastLine items)

namespace Consults

variable {limits : Limits} {x : Token} {us : List Token} {items : List Item}
  {source rest : Source} {d : Cursor}

theorem reads_of_run {outcome : Outcome (Option Tree)} {result : Except Error (Option Tree)}
    (h : (Parser.root limits).run ⟨.endOfInput, .ofSource source⟩ = outcome)
    (hresult : outcome.result = result)
    (hpolls : (Feed.ofSource source).Polls items outcome.cursor.feed) :
    parseSource limits source = result ∧
      (Feed.ofSource source).Polls items (unread limits source) := by
  subst hresult
  rw [unread, parseSource, h]
  refine ⟨?_, hpolls⟩
  cases outcome <;> rfl

/-- A source that begins with no token is asked once. -/
theorem of_not_goesOn (limits : Limits) {item : Item} (h : ¬item.GoesOn) :
    ∃ result, Consults limits [item] result := by
  have hend (hitem : ∀ error, item ≠ .failure error) : Consults limits [item] (.ok none) := by
    refine ⟨by simp, ?_, ?_, by simp⟩
    · rintro source ⟨rfl, -⟩
      have receives : Cursor.Receives _ (source.headD .gap) _ :=
        Cursor.receives_advance (c := ⟨.endOfInput, .ofSource source⟩) rfl
      have polls : (Feed.ofSource source).Polls [source.headD .gap] _ := .cons rfl (.nil _)
      cases ha : advance.run ⟨.endOfInput, .ofSource source⟩ with
      | failed error d =>
        exact absurd (Cursor.head_of_advance_failed rfl ha) (hitem error)
      | done t d =>
        rw [ha] at receives
        rw [Cursor.feed_of_advance ha] at polls
        have hd : d.lookahead.kind = .endOfInput := by
          generalize source.headD .gap = item at h receives
          cases receives with
          | token x => exact not_not.1 h
          | gap => rfl
        have root : (Parser.root limits).run ⟨.endOfInput, .ofSource source⟩ = .done none d := by
          rw [Parser.root, Parser.run_bind_of_done ha]
          change (if d.lookahead.kind = .endOfInput then _ else _ : Parser (Option Tree)).run _ = _
          rw [if_pos hd]
          rfl
        exact reads_of_run root rfl polls
    · intro error hmem
      exact absurd (List.mem_singleton.1 hmem).symm (hitem error)
  cases item with
  | token | gap => exact ⟨_, hend (by simp)⟩
  | failure error =>
    refine ⟨.error error, by simp, ?_, by simp, by simp⟩
    intro source hsource
    obtain ⟨d, ha, polls⟩ :=
      Cursor.advance_of_failure (c := ⟨.endOfInput, .ofSource source⟩) rfl hsource.1
    exact reads_of_run (Parser.run_bind_of_failed ha) rfl polls

theorem reads_token (hx : x.kind ≠ .endOfInput) {outcome : Outcome Tree}
    (h : (Parser.sentence limits).run (.first x [] rest) = outcome)
    {result : Except Error (Option Tree)} (hresult : outcome.result.map some = result)
    (hpolls : (Cursor.first x [] rest).feed.Polls items outcome.cursor.feed) :
    parseSource limits (.token x :: rest) = result ∧
      (Feed.ofSource (.token x :: rest)).Polls (.token x :: items)
        (unread limits (.token x :: rest)) := by
  have root := Parser.run_root limits hx [] rest
  rw [Parser.run_bind, h] at root
  refine reads_of_run root ?_ ?_ <;> cases outcome
  · exact hresult
  · exact hresult
  · exact .cons rfl hpolls
  · exact .cons rfl hpolls

/-- Behind the first token another source is read from a twin of this cursor. -/
theorem exists_twin (rest : Source) (h : source.Answers (.token x :: items)) :
    ∃ rest' : Source, source = .token x :: rest' ∧ rest'.Answers items ∧
      Cursor.Twin (.first x [] rest) (.first x [] rest') := by
  obtain ⟨hhead, htail⟩ := h
  cases source with
  | nil => cases hhead
  | cons item rest' =>
    cases hhead
    exact ⟨rest', rfl, htail, ⟨⟨rfl, rfl⟩, rfl⟩⟩

theorem failure_not_mem (h : (Cursor.first x [] rest).Asks us items d) (error : Error) :
    .failure error ∉ (.token x :: items : List Item) := by
  simpa using h.failure_not_mem error

/-- The parser itself ends the run, behind what it has taken. -/
theorem of_asks (hx : x.kind ≠ .endOfInput) (h : (Cursor.first x [] rest).Asks us items d)
    {result : Except Error (Option Tree)}
    (hrun : ∀ c' d', Cursor.Alike (.first x [] rest) c' → c'.Takes us d' → Cursor.Alike d d' →
      ∃ outcome, (Parser.sentence limits).run c' = outcome ∧ outcome.result.map some = result ∧
        outcome.cursor = d')
    (herror : ∀ error, result = .error error → (∃ fault, error = .syntactic fault d.feed.line) ∨
      ∃ limit, error = .tooDeep limit d.feed.line) :
    Consults limits (.token x :: items) result := by
  refine ⟨?_, ?_, ?_, ?_⟩
  · cases items with
    | nil => simp
    | cons item items =>
      rw [List.dropLast_cons_of_ne_nil (List.cons_ne_nil _ _)]
      exact List.forall_mem_cons.2 ⟨hx, h.goesOn.1⟩
  · intro source hsource
    obtain ⟨rest', rfl, hitems, twin⟩ := exists_twin rest hsource
    obtain ⟨d', hasks', hd⟩ := h.replay twin hitems
    obtain ⟨outcome, ho, hresult, rfl⟩ := hrun _ d' twin.toAlike hasks'.takes hd.toAlike
    exact reads_token hx ho hresult hasks'.polls
  · intro error hmem
    exact absurd hmem (failure_not_mem h error)
  · have hline : d.feed.line = Source.lastLine (.token x :: items) :=
      Feed.Polls.line_eq (f := .ofSource (.token x :: rest)) (.cons rfl h.polls)
    rw [hline] at herror
    exact fun error he => .inr (herror error he)

/-- The source ends the run, with a failure behind what has been taken. -/
theorem of_cut (hx : x.kind ≠ .endOfInput) (h : (Cursor.first x [] rest).Asks us items d)
    (hk : d.lookahead.kind ≠ .endOfInput) (hexhausted : d.feed.exhausted = false) {error : Error}
    (hrun : ∀ c' d' e', Cursor.Alike (.first x [] rest) c' → c'.Takes us d' → Cursor.Alike d d' →
      advance.run d' = .failed error e' → (Parser.sentence limits).run c' = .failed error e') :
    Consults limits (.token x :: (items ++ [.failure error])) (.error error) := by
  refine ⟨?_, ?_, ?_, ?_⟩
  · rw [← List.cons_append, List.dropLast_concat]
    exact List.forall_mem_cons.2 ⟨hx, h.goesOn.2 hk⟩
  · intro source hsource
    obtain ⟨rest', rfl, hitems, twin⟩ := exists_twin rest hsource
    obtain ⟨hbefore, hlast, -⟩ := Source.answers_append.1 hitems
    obtain ⟨d', hasks', hd⟩ := h.replay twin hbefore
    have hhead : d'.feed.pending.headD .gap = .failure error := by
      rw [hasks'.polls.answers.2, ← hlast]
      rfl
    obtain ⟨e', ha, hpolls⟩ :=
      Cursor.advance_of_failure (hd.exhausted.symm.trans hexhausted) hhead
    exact reads_token hx (hrun _ d' e' twin.toAlike hasks'.takes hd.toAlike ha) rfl
      (hasks'.polls.append hpolls)
  · intro error' hmem
    rw [← List.cons_append, List.mem_append] at hmem
    rcases hmem with hmem | hmem
    · exact absurd hmem (failure_not_mem h error')
    · simp_all
  · intro error' herror
    cases herror
    exact .inl (by simp)

/-- A source that begins with a token is read on from there. -/
theorem of_token (limits : Limits) (hx : x.kind ≠ .endOfInput) (rest : Source) :
    ∃ items result, rest.Answers items ∧ Consults limits (.token x :: items) result := by
  have hc : (Cursor.first x [] rest).Fresh := by
    intro h
    cases h
  cases Parser.reads_sentence limits (.first x [] rest) with
  | @done us t d ht _ hrun =>
    obtain ⟨-, items, hasks⟩ := ht.asks hc
    refine ⟨items, .ok (some t), hasks.polls.answers.1, of_asks hx hasks ?_ (by simp)⟩
    exact fun c' d' halike ht' hd => ⟨_, hrun halike ht' hd, rfl, rfl⟩
  | @failed us error d ht hreason hrun =>
    obtain ⟨-, items, hasks⟩ := ht.asks hc
    refine ⟨items, .error (error d.feed.line), hasks.polls.answers.1, of_asks hx hasks ?_ ?_⟩
    · exact fun c' d' halike ht' hd => ⟨_, hrun halike ht' hd, by rw [hd.line]; rfl, rfl⟩
    · intro error' herror
      cases herror
      cases hreason with
      | stuck | unknownAxis => exact .inl ⟨_, rfl⟩
      | tooDeep limit => exact .inr ⟨_, rfl⟩
  | @cut us error d e ht hk ha _ hrun =>
    obtain ⟨hd, items, hasks⟩ := ht.asks hc
    have hexhausted := hd.exhausted hk
    obtain ⟨hitems, hpending⟩ := hasks.polls.answers
    refine ⟨items ++ [.failure error], .error error, ?_, of_cut hx hasks hk hexhausted ?_⟩
    · refine Source.answers_append.2 ⟨hitems, ?_, trivial⟩
      rw [← Cursor.head_of_advance_failed hexhausted ha, hpending]
      rfl
    · exact fun c' d' e' halike ht' hd' ha' => hrun halike ht' hd' ha'

end Consults

/-- What a parse asks of its source determines what it comes to, and it asks for nothing behind a
failure, an end of input or the point where the source has run dry. -/
theorem reads_only_what_it_asks_for (limits : Limits) (source : Source) :
    ∃ items, (∀ asked, (Feed.ofSource source).Polls asked (unread limits source) ↔ asked = items) ∧
      Consults limits items (parseSource limits source) := by
  obtain ⟨items, result, hitems, hconsults⟩ :
      ∃ items result, source.Answers items ∧ Consults limits items result := by
    by_cases h : (source.headD .gap).GoesOn
    · cases source with
      | nil => exact h.elim
      | cons item rest =>
        cases item with
        | token x =>
          obtain ⟨items, result, hitems, hconsults⟩ := Consults.of_token limits h rest
          exact ⟨.token x :: items, result, ⟨rfl, hitems⟩, hconsults⟩
        | failure | gap => exact h.elim
    · obtain ⟨result, hconsults⟩ := Consults.of_not_goesOn limits h
      exact ⟨[_], result, ⟨rfl, trivial⟩, hconsults⟩
  obtain ⟨rfl, hpolls⟩ := hconsults.reads source hitems
  refine ⟨items, ?_, hconsults⟩
  intro asked
  constructor
  · intro h
    exact h.unique hpolls
  · rintro rfl
    exact hpolls

end XPathSyntax
