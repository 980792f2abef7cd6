import XPathSyntax.Count
import XPathSyntax.Limits

/-! The words of a command line. They are read from left to right; the first fault and the first
wish for the version or for help end the reading. A limit may stand behind an equals sign or in the
next word, which then must not look like an option.

The program leaves this to a library. What is followed here is what words mean and which of them are
faulty; the wording of the faults and the text of the help are the library's own and are left out. -/

namespace XPathSyntax.CommandLine

inductive Switch where
  | records
  | timing
  | verbose
  deriving DecidableEq

inductive Bound where
  | nesting
  | height
  deriving DecidableEq

def Switch.word : Switch → String
  | records => "--debug"
  | timing => "--timing"
  | verbose => "--verbose"

def Bound.word : Bound → String
  | nesting => "--max-depth"
  | height => "--max-tree-depth"

inductive UsageFault where
  | unknown (word : String)
  | repeated (word : String)
  | valueMissing (word : String)
  | valueUnwanted (word : String)
  | notANumber (word value : String)
  deriving DecidableEq

def UsageFault.message : UsageFault → String
  | unknown word => "unexpected argument '" ++ word ++ "'"
  | repeated word => "the argument '" ++ word ++ "' cannot be used multiple times"
  | valueMissing word => "a value is required for '" ++ word ++ "'"
  | valueUnwanted word => "unexpected value for '" ++ word ++ "'"
  | notANumber word value => "invalid value '" ++ value ++ "' for '" ++ word ++ "'"

structure Arguments where
  switches : List Switch := []
  bounds : List (Bound × Nat) := []
  expressions : List String := []
  deriving DecidableEq

inductive Invocation where
  | version
  | help
  | parse (arguments : Arguments)
  deriving DecidableEq

def readDigits? (digits : List Char) : Option Nat :=
  if digits.isEmpty || digits.any (!·.isDigit) then none
  else some (digits.foldl (fun n d => 10 * n + (d.toNat - '0'.toNat)) 0)

/-- The number behind its sign; of the negative ones only zero counts anything. -/
def readSigned? : List Char → Option Nat
  | '+' :: digits => readDigits? digits
  | '-' :: digits => (readDigits? digits).filter (· = 0)
  | digits => readDigits? digits

def readNumber? (s : String) : Option Nat :=
  (readSigned? s.toList).filter (· ≤ Count.top)

namespace Arguments

def turnOn (a : Arguments) (s : Switch) : Except UsageFault Arguments :=
  if a.switches.contains s then .error (.repeated s.word)
  else .ok { a with switches := a.switches ++ [s] }

def bound (a : Arguments) (b : Bound) (value : String) : Except UsageFault Arguments :=
  match readNumber? value with
  | none => .error (.notANumber b.word value)
  | some n =>
    if (a.bounds.lookup b).isSome then .error (.repeated b.word)
    else .ok { a with bounds := a.bounds ++ [(b, n)] }

def expression (a : Arguments) (text : String) : Arguments :=
  { a with expressions := a.expressions ++ [text] }

def limits (a : Arguments) : Limits where
  nesting := (a.bounds.lookup .nesting).getD ({} : Limits).nesting
  height := (a.bounds.lookup .height).getD ({} : Limits).height

end Arguments

inductive Word where
  | expression (text : String)
  /-- Everything behind is an expression. -/
  | separator
  | version
  | help
  | switch (s : Switch)
  | bound (b : Bound) (attached : Option String)
  | faulty (fault : UsageFault)
  deriving DecidableEq

def looksLikeOption (word : String) : Bool :=
  match word.toList with
  | '-' :: _ :: _ => true
  | _ => false

def splitOption (word : String) : String × Option String :=
  let chars := word.toList
  let name := String.ofList (chars.takeWhile (· != '='))
  match chars.dropWhile (· != '=') with
  | [] => (name, none)
  | _ :: value => (name, some (String.ofList value))

def Word.ofLongOption (word : String) : Word :=
  let (name, value) := splitOption word
  match [Bound.nesting, .height].find? (·.word == name) with
  | some b => .bound b value
  | none =>
    let known :=
      if name == "--version" then some .version
      else if name == "--help" then some .help
      else ([Switch.records, .timing, .verbose].find? (·.word == name)).map .switch
    match known, value with
    | some known, none => known
    | some _, some _ => .faulty (.valueUnwanted name)
    | none, _ => .faulty (.unknown name)

/-- Short options may be written together, and the first of them acts first. -/
def Word.ofString (word : String) : Word :=
  if looksLikeOption word then
    match word.toList with
    | ['-', '-'] => .separator
    | '-' :: '-' :: _ => ofLongOption word
    | '-' :: 'V' :: _ => .version
    | '-' :: 'h' :: _ => .help
    | _ => .faulty (.unknown word)
  else .expression word

def readFrom (a : Arguments) : List String → Except UsageFault Invocation
  | [] => .ok (.parse a)
  | word :: rest =>
    match Word.ofString word with
    | .expression text => readFrom (a.expression text) rest
    | .separator => .ok (.parse { a with expressions := a.expressions ++ rest })
    | .version => .ok .version
    | .help => .ok .help
    | .switch s =>
      match a.turnOn s with
      | .ok a => readFrom a rest
      | .error fault => .error fault
    | .bound b (some value) =>
      match a.bound b value with
      | .ok a => readFrom a rest
      | .error fault => .error fault
    | .bound b none =>
      match rest with
      | [] => .error (.valueMissing b.word)
      | value :: rest =>
        if looksLikeOption value then .error (.valueMissing b.word)
        else
          match a.bound b value with
          | .ok a => readFrom a rest
          | .error fault => .error fault
    | .faulty fault => .error fault

def Invocation.ofWords (words : List String) : Except UsageFault Invocation :=
  readFrom {} words

end XPathSyntax.CommandLine
