import StyleLang.CommandLine.Options

/-!
# Invocations

A command line names one of three tasks, with the options of the program before it and those of the
task after it. Whether the words have the form of options and operands is settled here, for all of
them; what they stand for is looked at later.
-/

namespace StyleLang.CommandLine

inductive Key where
  | help
  | version
  | verbose
  | output
  | indent
  | evaluated
  deriving DecidableEq

inductive Task where
  | compile
  | check
  | inspect
  deriving DecidableEq

def helpOption : OptionSpec Key := ⟨.help, none, "--help", false⟩

def programOptions : List (OptionSpec Key) :=
  [⟨.version, none, "--version", false⟩, ⟨.verbose, some 'v', "--verbose", false⟩, helpOption]

namespace Task

def ofName? : String → Option Task
  | "compile" => some compile
  | "check" => some check
  | "inspect" => some inspect
  | _ => none

def options : Task → List (OptionSpec Key)
  | compile =>
    [⟨.output, some 'o', "--output", true⟩, ⟨.indent, none, "--indent", true⟩, helpOption]
  | check => [helpOption]
  | inspect => [⟨.evaluated, none, "--evaluated", false⟩, helpOption]

end Task

namespace Parsed

def isSet (p : Parsed Key) (k : Key) : Bool := p.settings.any (·.key = k)

/-- The value of an option; of several the last. -/
def value? (p : Parsed Key) (k : Key) : Option String :=
  ((p.settings.filter (·.key = k)).getLast?).map Setting.value

end Parsed

/-- A task with its words. -/
structure Request where
  verbose : Bool
  task : Task
  words : Parsed Key
  deriving DecidableEq

inductive Invocation where
  | version
  | help
  | request (r : Request)
  deriving DecidableEq

/-- Reads the words after the name of a task; help, once asked for, is all that is given. -/
def readRequest (verbose : Bool) (task : Task) (words : List String) : Except Usage Invocation :=
  (readWords task.options true words).map fun p =>
    if p.isSet .help then .help else .request ⟨verbose, task, p⟩

/-- The first of the options that end an invocation before it reaches a task. -/
def early? (p : Parsed Key) : Option Invocation :=
  p.settings.findSome? fun s =>
    match s.key with
    | .version => some .version
    | .help => some .help
    | _ => none

/-- Reads the words of a command line. Where the name of a task should stand, a word after `--` may
still be an option that ends the invocation. -/
def readInvocation (words : List String) : Except Usage Invocation :=
  match readWords programOptions false words with
  | .error u => .error u
  | .ok p =>
    match early? p, p.operands with
    | some i, _ => .ok i
    | none, [] => .error .commandMissing
    | none, name :: rest =>
      match Task.ofName? name with
      | some task => readRequest (p.isSet .verbose) task rest
      | none =>
        match readWords programOptions false (name :: rest) with
        | .error u => .error u
        | .ok again =>
          match early? again with
          | some i => .ok i
          | none => .error (.noSuchCommand name)

end StyleLang.CommandLine
