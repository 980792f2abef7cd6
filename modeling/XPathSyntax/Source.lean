import XPathSyntax.Error

/-! Where tokens come from. A source is what it yields, item by item; besides tokens it can yield
an error, or run dry at a point beyond which it would go on. A feed asks a source for one token at
a time and never again once it has run dry: from then on it answers with the end of input. -/

namespace XPathSyntax

inductive Source.Item where
  | token (token : Token)
  | failure (error : Error)
  /-- The source runs dry here, although more would follow. -/
  | gap
  deriving DecidableEq

/-- Behind its last item a source is dry for good. -/
abbrev Source := List Source.Item

structure Feed where
  pending : Source
  exhausted : Bool := false
  /-- The line of the latest token that had one. -/
  line : Nat := 1
  deriving DecidableEq

namespace Feed

def ofSource (source : Source) : Feed :=
  { pending := source }

def next (f : Feed) : Except Error Token × Feed :=
  if f.exhausted then (.ok .endOfInput, f)
  else
    match f.pending with
    | [] => (.ok .endOfInput, { f with exhausted := true })
    | .gap :: rest => (.ok .endOfInput, { f with pending := rest, exhausted := true })
    | .failure error :: rest => (.error error, { f with pending := rest })
    | .token token :: rest =>
      (.ok token, { f with pending := rest, line := token.line.getD f.line })

def remaining (f : Feed) : Nat :=
  if f.exhausted then 0 else f.pending.length

theorem remaining_le_of_next {f f' : Feed} {result : Except Error Token}
    (h : f.next = (result, f')) : f'.remaining ≤ f.remaining := by
  unfold next at h
  repeat' split at h
  all_goals cases h
  all_goals simp_all [remaining]

/-- A token that is not the end of input has been taken from the source. -/
theorem remaining_lt_of_next {f f' : Feed} {token : Token} (h : f.next = (.ok token, f'))
    (hk : token.kind ≠ .endOfInput) : f'.remaining < f.remaining := by
  unfold next at h
  repeat' split at h
  all_goals simp_all [remaining, Token.endOfInput]
  all_goals grind

end Feed
end XPathSyntax
