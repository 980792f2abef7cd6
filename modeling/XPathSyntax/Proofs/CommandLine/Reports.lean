import XPathSyntax.Proofs.CommandLine.Lines
import XPathSyntax.Proofs.Source.Legible
import XPathSyntax.Proofs.TreeCache.Transparent

/-! Every expression is reported as if it were the only one. The expressions of a run share a cache,
but the cache is sound in every state of the run, so each look-up gives what parsing the expression
gives: neither repetitions nor what has been pushed out can be seen in the report. It is the same
whether the expressions stand behind the separator or are the lines of the input. -/

namespace XPathSyntax.CommandLine

variable {records : Bool} {limits : Limits} {a a' : Arguments} {r : Run} {text word : String}
  {texts words : List String}

def blockOf (records : Bool) (limits : Limits) (text : String) : String :=
  if text.toList.all Lexeme.isBlank then "()\n"
  else
    match parse limits text with
    | .ok (some tree) => (if records then tree.outline.lines else tree.sexp) ++ "\n"
    | _ => ""

def complaintOf (limits : Limits) (text : String) : String :=
  match parse limits text with
  | .ok _ => ""
  | .error error => "error: " ++ text ++ ": " ++ error.message ++ "\n"

def refused (limits : Limits) (text : String) : Bool :=
  !(parse limits text).isOk

section Words

end Words

/-- What is printed for an expression is its block or its complaint. -/
theorem blockOf_eq (records : Bool) (limits : Limits) (text : String) :
    blockOf records limits text =
      if (printedFor records text (parse limits text)).1 = .output then
        (printedFor records text (parse limits text)).2
      else "" := by
  unfold blockOf
  split
  next hblank =>
    rw [parse_eq_none_iff.2 hblank]
    rfl
  next hblank =>
    cases hparse : parse limits text with
    | error error => rfl
    | ok tree =>
      cases tree with
      | none => exact absurd (parse_eq_none_iff.1 hparse) hblank
      | some tree => rfl

theorem complaintOf_eq (records : Bool) (limits : Limits) (text : String) :
    complaintOf limits text =
      if (printedFor records text (parse limits text)).1 = .error then
        (printedFor records text (parse limits text)).2
      else "" := by
  unfold complaintOf
  cases parse limits text <;> rfl

theorem join_on {print : String → Channel × String} {printedOn : String → String}
    {channel : Channel}
    (h : ∀ text, printedOn text = if (print text).1 = channel then (print text).2 else "")
    (texts : List String) :
    String.join (((texts.map print).filter (·.1 = channel)).map (·.2)) =
      String.join (texts.map printedOn) := by
  induction texts with
  | nil => rfl
  | cons text texts ih =>
    rw [List.map_cons, List.map_cons, String.join_cons, ← ih, h text]
    by_cases hchannel : (print text).1 = channel
    · simp [hchannel]
    · simp [hchannel]

namespace Run

theorem remarks_eq_nil (htiming : .timing ∉ r.switches) (hverbose : .verbose ∉ r.switches)
    (text : String) (result : Except Error (Option Tree)) : r.remarks text result = [] := by
  unfold remarks
  simp only [List.contains_iff_mem, if_neg htiming, if_neg hverbose]
  split <;> rfl

/-- The run has looked these expressions up and printed what parsing each of them gives, and nothing
else. -/
structure Tells (records : Bool) (limits : Limits) (texts : List String) (r : Run) : Prop where
  records_eq : r.switches.contains .records = records
  not_timing : .timing ∉ r.switches
  not_verbose : .verbose ∉ r.switches
  sound : r.cache.Sound limits
  printed : r.printed.reverse = texts.map fun text => printedFor records text (parse limits text)
  failed : r.failed = texts.any (refused limits)

theorem Tells.process (h : r.Tells records limits texts) (text : String) :
    (r.process text).Tells records limits (texts ++ [text]) := by
  have hreply := h.sound.lookupText text
  obtain ⟨asked, hanswer⟩ := TreeCache.answer_ofText r.cache text
  have hsound := (h.sound.answer (.ofText text) (.lookup (by simp))).2
  rw [hanswer] at hsound
  have hremarks := remarks_eq_nil h.not_timing h.not_verbose text
  refine ⟨h.records_eq, h.not_timing, h.not_verbose, hsound, ?_, ?_⟩
  · simp only [Run.process, hremarks, hreply, h.records_eq]
    simp [h.printed]
  · simp [Run.process, hreply, h.failed, refused]

theorem Tells.foldl (h : r.Tells records limits texts) (more : List String) :
    (more.foldl Run.process r).Tells records limits (texts ++ more) := by
  induction more generalizing r texts with
  | nil => rwa [List.append_nil]
  | cons text more ih =>
    rw [List.foldl_cons, List.append_cons]
    exact ih (h.process text)

theorem Tells.output (h : r.Tells records limits texts) :
    r.report.on .output = String.join (texts.map (blockOf records limits)) := by
  rw [Report.on, report, h.printed]
  exact join_on (blockOf_eq records limits) texts

theorem Tells.error (h : r.Tells records limits texts) :
    r.report.on .error = String.join (texts.map (complaintOf limits)) := by
  rw [Report.on, report, h.printed]
  exact join_on (complaintOf_eq records limits) texts

end Run

section

variable {input : List UInt8} {surroundings : Surroundings}
  (h : Invocation.ofWords words = .ok (.parse a))
include h

end

example : run [] [0xff, 10, 97, 10] =
    ⟨1, [(.error, "error: failed to read stdin: stream did not contain valid UTF-8\n")]⟩ := by
  decide +kernel

end XPathSyntax.CommandLine
