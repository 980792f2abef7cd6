import XPathSyntax.CommandLine.Arguments
import XPathSyntax.Tree.Record
import XPathSyntax.Tree.Sexp
import XPathSyntax.TreeCache

/-! The command line as a function of its words and of the bytes of its input. Every expression is
looked up in one cache and reported in turn: its tree on the output channel, its error on the error
channel. Without expressions among the words, the lines of the input are the expressions. With times
and the lines of the log, which `--timing` and `--verbose` put on the error channel, a run is
provided from outside. -/

namespace XPathSyntax.CommandLine

inductive Channel where
  | output
  | error
  deriving DecidableEq

structure Report where
  exitCode : Nat
  printed : List (Channel × String)
  deriving DecidableEq

def Report.on (r : Report) (channel : Channel) : String :=
  String.join ((r.printed.filter (·.1 = channel)).map (·.2))

def failureCode : Nat := 1

def usageCode : Nat := 2

def written (records : Bool) : Option Tree → String
  | none => "()"
  | some tree => if records then tree.outline.lines else tree.sexp

def printedFor (records : Bool) (text : String) :
    Except Error (Option Tree) → Channel × String
  | .ok tree => (.output, written records tree ++ "\n")
  | .error error => (.error, "error: " ++ text ++ ": " ++ error.message ++ "\n")

/-- What a run cannot know by itself: how long the look-up of each of its expressions has taken, and
what the log writes when one of them has been parsed. By default no time passes and nothing is
written. -/
structure Surroundings where
  elapsed : Nat → String := fun _ => "0ns"
  logged : Nat → String → String := fun _ _ => ""

/-- The state of a run: the cache, how many expressions have been processed, and what has been
printed so far, latest first. -/
structure Run where
  switches : List Switch
  surroundings : Surroundings
  cache : TreeCache
  processed : Nat := 0
  failed : Bool := false
  printed : List (Channel × String) := []

namespace Run

def start (a : Arguments) (surroundings : Surroundings) : Run where
  switches := a.switches
  surroundings
  cache := .empty TreeCache.defaultCapacity a.limits

/-- The lines about the work on the expression, in front of its tree or its error. -/
def remarks (r : Run) (text : String) (result : Except Error (Option Tree)) : List String :=
  let timing :=
    if r.switches.contains .timing then
      ["Parsing " ++ Text.quote text ++ " took " ++ r.surroundings.elapsed r.processed ++ "\n"]
    else []
  let log :=
    if r.switches.contains .verbose then [r.surroundings.logged r.processed text] else []
  match result with
  | .ok (some _) => timing ++ log
  | _ => timing

def process (r : Run) (text : String) : Run :=
  let answered := r.cache.lookupText text
  let remarks := (r.remarks text answered.reply).map fun line => (Channel.error, line)
  { r with
    cache := answered.cache
    processed := r.processed + 1
    failed := r.failed || !answered.reply.isOk
    printed := printedFor (r.switches.contains .records) text answered.reply ::
      (remarks.reverse ++ r.printed) }

def report (r : Run) : Report where
  exitCode := if r.failed then failureCode else 0
  printed := r.printed.reverse

/-- Processes line after line, up to the first one that is no text. -/
def processLines (r : Run) : List (List UInt8) → Report
  | [] => r.report
  | line :: rest =>
    match String.fromUTF8? ⟨line.toArray⟩ with
    | some text => processLines (r.process text) rest
    | none =>
      let message := "error: failed to read stdin: stream did not contain valid UTF-8\n"
      { exitCode := failureCode, printed := ((.error, message) :: r.printed).reverse }

end Run

def newline : UInt8 := 10

def carriageReturn : UInt8 := 13

/-- A line from its bytes in reverse order, without the carriage return at its end. -/
def trimmedLine : List UInt8 → List UInt8
  | b :: rest => if b = carriageReturn then rest.reverse else (b :: rest).reverse
  | [] => []

/-- The lines of `bytes`, the first of which has begun with `begun` in reverse order. Only a line
that ends in a newline loses a carriage return before it. -/
def linesFrom (begun : List UInt8) : List UInt8 → List (List UInt8)
  | [] => if begun.isEmpty then [] else [begun.reverse]
  | b :: rest =>
    if b = newline then trimmedLine begun :: linesFrom [] rest
    else linesFrom (b :: begun) rest

def versionText : String := "xpath-ast 0.1.0\n"

def wantsInput (words : List String) : Bool :=
  match Invocation.ofWords words with
  | .ok (.parse a) => a.expressions.isEmpty
  | _ => false

def run (words : List String) (input : List UInt8) (surroundings : Surroundings := {}) : Report :=
  match Invocation.ofWords words with
  | .error fault => ⟨usageCode, [(.error, "error: " ++ fault.message ++ "\n")]⟩
  | .ok .version => ⟨0, [(.output, versionText)]⟩
  -- the text of the help is left out
  | .ok .help => ⟨0, []⟩
  | .ok (.parse a) =>
    let start := Run.start a surroundings
    if a.expressions.isEmpty then start.processLines (linesFrom [] input)
    else (a.expressions.foldl Run.process start).report

end XPathSyntax.CommandLine
