import XPathSyntax.Proofs.Grammar.Acceptance

/-! Errors are found at the earliest token. What a run has taken before it gets stuck can still be
continued to a sentence, and what it has taken together with the token at which it is stuck cannot:
the run sees nothing behind that token, so it would be stuck in every continuation too, but a
sentence is accepted. -/

namespace XPathSyntax

open Grammar (Derives Sentence Viable)
open XPathSyntax.Parser (KnownAxis)

variable {limits : Limits} {ts us : List Token} {x y : Token} {xs ys : List Token} {more : Source}

theorem viable_nil : Viable [] :=
  ⟨[⟨.name, none, none⟩], _, _, (Derives.lone (.child (.name rfl))).expression_of_member⟩

theorem not_sentence_of_syntactic {fault : SyntaxFault} {line : Nat}
    (h : parseSource limits (ts.map .token) = .error (.syntactic fault line)) : ¬Sentence ts := by
  rintro ⟨t, n, hd⟩
  rcases parseSource_of_derives limits hd with ⟨-, -, ho⟩ | ⟨-, line', ho⟩ | ⟨-, line', ho⟩
  · rw [h] at ho
    cases ho
  · rw [h] at ho
    cases ho
  · rw [h] at ho
    cases ho

/-- Where a run is stuck, no continuation is a sentence. -/
theorem not_viable_of_stuck {fault : SyntaxFault} {line : Nat}
    (h : ∀ others, parseSource limits (us.map .token ++ others) = .error (.syntactic fault line)) :
    ¬Viable us := by
  rintro ⟨more, hs⟩
  have stuck := h (more.map .token)
  rw [← List.map_append] at stuck
  exact not_sentence_of_syntactic stuck hs

/-- The first token at which it is certain that the tokens are not the beginning of a sentence, or
the end of the tokens if only what follows them is missing. -/
def FirstFault (ts : List Token) (i : Nat) : Prop :=
  i ≤ ts.length ∧ Viable (ts.take i) ∧
    (i < ts.length ∧ ¬Viable (ts.take (i + 1)) ∨ i = ts.length ∧ ¬Sentence ts)

theorem FirstFault.unique {i j : Nat} (hi : FirstFault ts i) (hj : FirstFault ts j) : i = j := by
  have before {i j} (hi : FirstFault ts i) (hj : FirstFault ts j) : ¬i < j := by
    intro hlt
    obtain ⟨-, -, ⟨-, hnot⟩ | ⟨hlen, -⟩⟩ := hi
    · obtain ⟨-, hviable, -⟩ := hj
      apply hnot
      have split : ts.take j = ts.take (i + 1) ++ (ts.drop (i + 1)).take (j - (i + 1)) := by
        rw [← List.take_add]
        congr 1
        omega
      rw [split] at hviable
      exact Grammar.viable_of_append hviable
    · have := hj.1
      omega
  have := before hi hj
  have := before hj hi
  omega

theorem FirstFault.of_cons (hxs : ts = us ++ y :: ys) (hus : Viable us)
    (hy : ¬Viable (us ++ [y])) : FirstFault ts us.length := by
  subst hxs
  refine ⟨by simp, by simpa using hus, .inl ⟨by simp, ?_⟩⟩
  rwa [List.append_cons, List.take_left' (by simp)]

/-- A fault lies at the first token that no sentence can have there. -/
theorem firstFault_of_syntactic {fault : SyntaxFault} {line : Nat}
    (hkind : ∀ z ∈ ts, z.kind ≠ .endOfInput) (haxis : ∀ z ∈ ts, KnownAxis z)
    (h : parseSource limits (ts.map .token) = .error (.syntactic fault line)) :
    ∃ i, FirstFault ts i ∧ fault.found? = some (ts[i]?.getD .endOfInput) ∧
      line = Token.lastLine (ts.take (i + 1)) ∧
      (i < ts.length → ∀ others, parseSource limits ((ts.take (i + 1)).map .token ++ others) =
        .error (.syntactic fault line)) := by
  by_cases hne : ts = []
  · subst hne
    cases h
  · have nonsentence := not_sentence_of_syntactic h
    have ends := ends_of_tokens limits hkind hne (.inl rfl)
    rw [List.append_nil, h] at ends
    cases ends with
    | @stuck us y ys _ hts hviable hfound hstuck =>
      have upto : ts.take (us.length + 1) = us ++ [y] := by
        rw [hts, List.append_cons, List.take_left' (by simp)]
      refine ⟨us.length, .of_cons hts hviable (not_viable_of_stuck hstuck), ?_, ?_, ?_⟩
      · simpa [hts] using hfound
      · rw [upto]
      · intro _ others
        rw [upto]
        exact hstuck others
    | unfinished _ hviable hfound =>
      refine ⟨ts.length, ⟨Nat.le_refl _, ?_, .inr ⟨rfl, nonsentence⟩⟩, ?_, ?_, ?_⟩
      · rwa [List.take_length]
      · simpa using hfound
      · rw [List.take_of_length_le (Nat.le_succ _)]
      · intro hlt
        exact absurd hlt (Nat.lt_irrefl _)
    | unknownAxis ha hn => exact absurd (haxis _ ha) hn
    | cut hnil => cases hnil

/-- A failure of the source is found if and only if nothing before it is wrong. -/
theorem parseSource_failure_of_tokens {error : Error} {rest : Source}
    (hkind : ∀ z ∈ ts, z.kind ≠ .endOfInput) (haxis : ∀ z ∈ ts, KnownAxis z) :
    Viable ts ∧ parseSource limits (ts.map .token ++ .failure error :: rest) = .error error ∨
      ¬Viable ts ∧ (∃ fault line,
        parseSource limits (ts.map .token ++ .failure error :: rest) =
          .error (.syntactic fault line)) ∨
      ∃ limit line,
        parseSource limits (ts.map .token ++ .failure error :: rest) =
          .error (.tooDeep limit line) := by
  by_cases hne : ts = []
  · subst hne
    exact .inl ⟨viable_nil, rfl⟩
  · generalize hr : parseSource limits (ts.map .token ++ .failure error :: rest) = result
    have ends := ends_of_tokens limits hkind hne (.inr ⟨error, rest, rfl⟩)
    rw [hr] at ends
    cases ends with
    | accepted hnil => cases hnil
    | stuck hts _ _ hstuck =>
      refine .inr (.inl ⟨?_, _, _, rfl⟩)
      intro hviable
      rw [hts, List.append_cons] at hviable
      exact not_viable_of_stuck hstuck (Grammar.viable_of_append hviable)
    | unfinished hnil => cases hnil
    | tooDeep => exact .inr (.inr ⟨_, _, rfl⟩)
    | unknownAxis ha hn => exact absurd (haxis _ ha) hn
    | cut hmore hviable =>
      cases hmore
      exact .inl ⟨hviable haxis, rfl⟩

def kindNames : List (Token.Kind × String) :=
  [(.axis, "axis"), (.colon, "':'"), (.comma, "','"), (.decimal, "float"), (.integer, "integer"),
    (.name, "identifier"), (.nodeType, "type test"), (.openBracket, "'['"), (.closeBracket, "']'"),
    (.openParen, "'('"), (.closeParen, "')'"), (.slash, "'/'"), (.literal, "string"),
    (.reference, "variable"), (.operator .union, "'|'"), (.operator .and, "'and'"),
    (.operator .or, "'or'"), (.operator .plus, "'+'"), (.operator .minus, "'-'"),
    (.operator .div, "'div'"), (.operator .mod, "'mod'"), (.operator .times, "'*'"),
    (.operator .equal, "'='"), (.operator .unequal, "'!='"), (.operator .less, "'<'"),
    (.operator .greater, "'>'"), (.operator .atMost, "'<='"), (.operator .atLeast, "'>='")]

/-- What stands in a message for the token at a place, or for the place behind the last one. A
token is shown by its text, and by its kind only if it has none. -/
inductive Shown : Option Token → String → Prop where
  | nothing : Shown none "end of input"
  | kind {kind line name} : (kind, name) ∈ kindNames → Shown (some ⟨kind, none, line⟩) name
  | literal {value line} : Shown (some ⟨.literal, some value, line⟩) ("string " ++ Text.quote value)
  | reference {value line} : Shown (some ⟨.reference, some value, line⟩) ("'$" ++ value ++ "'")
  | axis {value line} : Shown (some ⟨.axis, some value, line⟩) ("axis '" ++ value ++ "'")
  | text {kind value line} : kind ∉ [.literal, .reference, .axis] →
      Shown (some ⟨kind, some value, line⟩) ("'" ++ value ++ "'")

/-- A message about what is shown as `shown` and stands on `line`. -/
inductive Names (line : Nat) (shown : String) : String → Prop where
  | expected (what : Expectation) : Names line shown
      ("syntax error on line " ++ toString line ++ ": " ++
        ("expected " ++ what.describe ++ ", found " ++ shown))
  | unexpected : Names line shown
      ("syntax error on line " ++ toString line ++ ": " ++
        ("unexpected " ++ shown ++ " after expression"))

theorem mem_kindNames {kind : Token.Kind} (h : kind ≠ .endOfInput) :
    (kind, kind.describe) ∈ kindNames := by
  cases kind with
  | operator op => cases op <;> decide
  | endOfInput => exact absurd rfl h
  | _ => decide

theorem shown_describe {t : Token} (h : t.kind ≠ .endOfInput) : Shown (some t) t.describe := by
  obtain ⟨kind, value, line⟩ := t
  cases value with
  | none => exact .kind (mem_kindNames h)
  | some value =>
    cases kind with
    | literal => exact .literal
    | reference => exact .reference
    | axis => exact .axis
    | _ => exact .text (by simp)

theorem names_of_found {fault : SyntaxFault} {found : Token} (h : fault.found? = some found)
    (line : Nat) : Names line found.describe (Error.syntactic fault line).message := by
  cases fault with
  | expected what => cases h; exact .expected what
  | trailing => cases h; exact .unexpected
  | unknownAxis => cases h
  | reported => cases h

theorem shown_of_found (hkind : ∀ z ∈ ts, z.kind ≠ .endOfInput) (i : Nat) :
    Shown ts[i]? (ts[i]?.getD .endOfInput).describe := by
  cases hi : ts[i]? with
  | none => exact .nothing
  | some t => exact shown_describe (hkind t (List.mem_of_getElem? hi))

/-- A failure behind the tokens comes out as it is if and only if the tokens can be continued to a
sentence. A fault in the tokens themselves lies at the only place where they stop being the
beginning of one; the message names the token there, the line is the last one known up to it, and
nothing behind it matters. -/
theorem errors_found_earliest (limits : Limits) (hkind : ∀ z ∈ ts, z.kind ≠ .endOfInput)
    (haxis : ∀ z ∈ ts, KnownAxis z) :
    (∀ error rest,
      (∀ limit line, parseSource limits (ts.map .token ++ .failure error :: rest) ≠
        .error (.tooDeep limit line)) →
      (Viable ts → parseSource limits (ts.map .token ++ .failure error :: rest) = .error error) ∧
      (¬Viable ts → ∃ fault line, parseSource limits (ts.map .token ++ .failure error :: rest) =
        .error (.syntactic fault line))) ∧
    ∀ fault line, parseSource limits (ts.map .token) = .error (.syntactic fault line) →
      ∃ i, FirstFault ts i ∧ (∀ j, FirstFault ts j → j = i) ∧
        (∃ shown, Shown ts[i]? shown ∧ Names line shown (Error.syntactic fault line).message) ∧
        line = Token.lastLine (ts.take (i + 1)) ∧
        (i < ts.length → ∀ others, parseSource limits ((ts.take (i + 1)).map .token ++ others) =
          .error (.syntactic fault line)) := by
  constructor
  · intro error rest shallow
    rcases parseSource_failure_of_tokens hkind haxis with
      ⟨hviable, h⟩ | ⟨hviable, h⟩ | ⟨limit, line, h⟩
    · exact ⟨fun _ => h, fun hnot => absurd hviable hnot⟩
    · exact ⟨fun hyes => absurd hyes hviable, fun _ => h⟩
    · exact absurd h (shallow limit line)
  · intro fault line h
    obtain ⟨i, hi, hfound, hline, hothers⟩ := firstFault_of_syntactic hkind haxis h
    exact ⟨i, hi, fun j hj => hj.unique hi, ⟨_, shown_of_found hkind i, names_of_found hfound line⟩,
      hline, hothers⟩

/-- In `a[)` on two lines the only fault is the parenthesis on the second; `a[` can be continued,
and what is missing is missing at its end. -/
theorem errors_found_earliest_in_brackets :
    let ts : List Token := [⟨.name, some "a", some 1⟩, ⟨.openBracket, none, none⟩,
      ⟨.closeParen, none, some 2⟩]
    (∀ z ∈ ts, z.kind ≠ .endOfInput) ∧ (∀ z ∈ ts, KnownAxis z) ∧
      Viable (ts.take 2) ∧ ¬Viable ts ∧
      (∃ i, FirstFault ts i ∧ (∀ j, FirstFault ts j → j = i) ∧
        (∃ shown, Shown ts[i]? shown ∧
          Names 2 shown "syntax error on line 2: expected an expression, found ')'") ∧
        2 = Token.lastLine (ts.take (i + 1))) ∧
      ∃ i, FirstFault (ts.take 2) i ∧ (∀ j, FirstFault (ts.take 2) j → j = i) ∧
        ∃ shown, Shown (ts.take 2)[i]? shown ∧
          Names 1 shown "syntax error on line 1: expected an expression, found end of input" := by
  intro ts
  have hkind : ∀ z ∈ ts, z.kind ≠ .endOfInput := by decide
  have haxis : ∀ z ∈ ts, KnownAxis z := by simp [ts, KnownAxis]
  have hkindBefore : ∀ z ∈ ts.take 2, z.kind ≠ .endOfInput :=
    fun z hz => hkind z (List.mem_of_mem_take hz)
  have haxisBefore : ∀ z ∈ ts.take 2, KnownAxis z := fun z hz => haxis z (List.mem_of_mem_take hz)
  obtain ⟨cut, faulty⟩ := errors_found_earliest ⟨2, 2⟩ hkind haxis
  obtain ⟨cutBefore, faultyBefore⟩ := errors_found_earliest ⟨2, 2⟩ hkindBefore haxisBefore
  let failure : Error := .lexical (.reported "") 0
  have found : parseSource ⟨2, 2⟩ (ts.map .token ++ [.failure failure]) =
      .error (.syntactic (.expected .expression ⟨.closeParen, none, some 2⟩) 2) := by
    decide +kernel
  have passed : parseSource ⟨2, 2⟩ ((ts.take 2).map .token ++ [.failure failure]) =
      .error failure := by
    decide +kernel
  have hmessage : (Error.syntactic (.expected .expression ⟨.closeParen, none, some 2⟩) 2).message =
      "syntax error on line 2: expected an expression, found ')'" := by
    decide +kernel
  have hmessage' : (Error.syntactic (.expected .expression .endOfInput) 1).message =
      "syntax error on line 1: expected an expression, found end of input" := by
    decide +kernel
  refine ⟨hkind, haxis, ?_, ?_, ?_, ?_⟩
  · -- otherwise a fault would have been found before the failure of the source
    by_contra hviable
    have shallow (limit line : Nat) :
        parseSource ⟨2, 2⟩ ((ts.take 2).map .token ++ [.failure failure]) ≠
          .error (.tooDeep limit line) := by
      rw [passed]
      simp [failure]
    obtain ⟨fault, line, h⟩ := (cutBefore failure [] shallow).2 hviable
    rw [passed] at h
    simp [failure] at h
  · -- otherwise the failure of the source behind the parenthesis would have been found
    intro hviable
    have h := (cut failure [] (by simp [found])).1 hviable
    rw [found] at h
    simp [failure] at h
  · obtain ⟨i, hi, hunique, hshown, hline, -⟩ :=
      faulty (.expected .expression ⟨.closeParen, none, some 2⟩) 2 (by decide +kernel)
    rw [hmessage] at hshown
    exact ⟨i, hi, hunique, hshown, hline⟩
  · obtain ⟨i, hi, hunique, hshown, -⟩ :=
      faultyBefore (.expected .expression .endOfInput) 1 (by decide +kernel)
    rw [hmessage'] at hshown
    exact ⟨i, hi, hunique, hshown⟩

end XPathSyntax
