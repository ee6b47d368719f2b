import StyleLang.CommandLine.Command
import StyleLang.Compile.Compiler
import StyleLang.Event.Log
import StyleLang.Node.Outline
import StyleLang.Text.ControlSequence

/-!
# Carrying out a command

A command writes to its two streams and perhaps one file, and ends with an exit code. Code 1 says
that the sheet is not valid or that something failed which the command does not handle, and code 2
that the command line is not understood.

A few words can ask a compilation for longer lines than memory holds. Whether it runs out of memory, and
what it has written by then, depends on the machine.
-/

namespace StyleLang.CommandLine

/-- A line that a command shows. -/
def echo (line : String) : String := Text.plain line ++ "\n"

/-- What a command does not handle. -/
inductive Crash where
  /-- The file is not UTF-8. -/
  | notText
  /-- A path holds the null character. -/
  | nullInPath
  /-- The file to be read is a directory. -/
  | directory
  /-- No text can be indented that far. -/
  | indentOutOfRange
  | outOfMemory
  /-- Something that the path of the output passes is not there. -/
  | passesNothing
  /-- Something that the path of the output passes is a file. -/
  | passesFile
  /-- The path of the output is too long, or one of its parts. -/
  | nameTooLong
  | failure (cause : Failure)

def Crash.message : Crash → String
  | notText => "The file is not UTF-8 text."
  | nullInPath => "The path holds a null character."
  | directory => "A directory cannot be read as a file."
  | indentOutOfRange => "No line can be indented that far."
  | outOfMemory => "Out of memory."
  | passesNothing => "There is no such directory to write into."
  | passesFile => "A file cannot be written into like a directory."
  | nameTooLong => "The name of the output is too long."
  | failure cause => cause.message

structure Result where
  code : Nat
  out : String
  err : String
  /-- The file written, with its text. -/
  written : Option (String × String)
  crash : Option Crash

/-- What a compilation has written when it stops before its end. -/
structure Traces where
  out : String
  err : String
  written : Option (String × String)

/-- What commands run on. -/
structure Machine where
  files : Files
  /-- What a compilation has written when it runs out of memory, if it does. -/
  shortage (verbose : Bool) (file : String) (output : Option String) (indent : Int) : Option Traces

namespace Result

def ended (code : Nat) (out err : String) : Result := ⟨code, out, err, none, none⟩

def crashed (out err : String) (c : Crash) : Result := ⟨1, out, err, none, some c⟩

def outOfMemory (t : Traces) : Result := ⟨1, t.out, t.err, t.written, some .outOfMemory⟩

def misused (u : Usage) : Result := ended 2 "" (echo ("Error: " ++ u.message))

def refused : Refusal → Result
  | .usage u => misused u
  | .nullInPath => crashed "" "" .nullInPath

end Result

def versionText : String := "icss, version 0.1.0\n"

def helpText : String :=
  "Usage: icss [OPTIONS] COMMAND [ARGS]...\n\n" ++
  "  Compile style sheets with variables, arithmetic and if/else to plain CSS.\n\n" ++
  "Options:\n  --version      Show the version and exit.\n" ++
  "  -v, --verbose  Log compilation phases to stderr.\n" ++
  "  --help         Show this message and exit.\n\n" ++
  "Commands:\n  check    Parse and type-check a file.\n" ++
  "  compile  Parse, check, evaluate and generate CSS for a file.\n" ++
  "  inspect  Parse and check a file, then display its syntax tree.\n"

def echoAll (lines : List String) : String := String.join (lines.map echo)

def parseFailureText (e : Source.ParseError) : String := echo ("Parse error: " ++ e.message)

/-- The log lines of a compilation. -/
def logText (verbose : Bool) (events : List Event) : String :=
  String.join ((logRecords (if verbose then .debug else .warning) events).map LogRecord.line)

/-- The layout for a number of spaces per level; none for a negative number. -/
def layoutFor (indent : Int) : Layout := { Layout.standard with indent := ⟨" ", indent.toNat⟩ }

/-- Why a file cannot be written at a path, if so: what it passes is looked at in order. -/
def writeCrash? (files : Files) (path : String) : Option Crash :=
  let tooLong := fun place => if nameFits (baseName place) then none else some Crash.nameTooLong
  if pathFits (direct path) then
    ((passed path).findSome? fun place =>
      match files place with
      | some .directory => none
      | some (.file _) => some .passesFile
      | none => (tooLong place).or (some .passesNothing)).or (tooLong path)
  else some .nameTooLong

def runCompile (files : Files) (verbose : Bool) (name source : String) (output : Option String)
    (indent : Int) : Result :=
  let ended := compile .recorder [] { Config.standard with layout := layoutFor indent } name source
  let log := logText verbose ended.2
  match ended.1 with
  | .ok css =>
    match output with
    | none | some "" => .ended 0 (Text.plain css) log
    | some path =>
      match writeCrash? files path with
      | some c => .crashed "" log c
      | none =>
        { Result.ended 0 (echo ("Wrote " ++ path)) log with written := some (path, css) }
  | .error (.source (.rejected e)) => .ended 1 "" (log ++ parseFailureText e)
  | .error (.diagnostics ds) =>
    .ended 1 "" (log ++ echoAll (ds.map Diagnostic.text ++
      ["", toString ds.length ++ " error(s); no CSS generated."]))
  | .error f => .crashed "" log (.failure f)

/-- Runs a step on an empty desk with nobody listening. -/
def runAlone {α : Type} (w : Work (List Event) α) : Except Failure α × Sheet :=
  let ended := w.runOn ⟨[], ⟨none, []⟩⟩
  (ended.1, ended.2.sheet)

/-- Parses a text and puts the sheet on the desk. -/
def load (source : String) : Work (List Event) Unit := do
  let s ← Compiler.parse .recorder source
  modify fun desk => { desk with sheet := s }

/-- How many diagnostics there are of each category. -/
def summary (ds : List Diagnostic) : String :=
  "Summary: " ++ String.intercalate ", " (Category.all.map fun c =>
    toString (ds.countP (·.category = c)) ++ " " ++ c.name ++ " error(s)")

def runCheck (name source : String) : Result :=
  let ended := runAlone do
    load source
    Compiler.check .recorder .standard
  match ended.1 with
  | .ok [] => .ended 0 (echo ("OK: " ++ name ++ " is valid (0 diagnostics)")) ""
  | .ok ds => .ended 1 (echoAll (ds.map Diagnostic.text ++ ["", summary ds])) ""
  | .error (.source (.rejected e)) => .ended 1 "" (parseFailureText e)
  | .error f => .crashed "" "" (.failure f)

def runInspect (source : String) (evaluated : Bool) : Result :=
  let ended := runAlone do
    load source
    if evaluated then
      Compiler.checkOrFail .recorder .standard
      Compiler.evaluate .recorder
    else discard (Compiler.check .recorder .standard)
  match ended.1 with
  | .ok () =>
    let title := echoAll ["Rules: " ++ toString ended.2.rules.length, ""]
    match ended.2.outline with
    | .ok lines => .ended 0 (title ++ echoAll lines) ""
    | .error f => .crashed title "" (.failure (.fault f))
  | .error (.source (.rejected e)) => .ended 1 "" (parseFailureText e)
  | .error (.diagnostics ds) => .ended 1 "" (echo (rejectionMessage ds))
  | .error f => .crashed "" "" (.failure f)

/-- Carries out a command on a file with the given bytes. -/
def runOn (files : Files) (verbose : Bool) (command : Command) (bytes : ByteArray) : Result :=
  match text? bytes with
  | none => .crashed "" "" .notText
  | some source =>
    match command with
    | .compile file output indent => runCompile files verbose (baseName file) source output indent
    | .check file => runCheck (baseName file) source
    | .inspect _ evaluated => runInspect source evaluated

/-- Numbers that fit in 64 bits with their sign lie below this, and not below its negative. -/
def indentRange : Int := 0x8000000000000000

/-- Why no line is indented as a command asks on any machine, if so. -/
def indentCrash? : Command → Option Crash
  | .compile _ _ indent =>
    if indent < -indentRange ∨ indentRange ≤ indent then some .indentOutOfRange else none
  | .check _ | .inspect _ _ => none

/-- What a command has written when it runs out of memory, if it does. Only a compilation can be asked
for more than its words and its file hold. -/
def Machine.outOfMemory? (m : Machine) (verbose : Bool) : Command → Option Traces
  | .compile file output indent => m.shortage verbose file output indent
  | .check _ | .inspect _ _ => none

/-- Carries out a command; its file is read only after its indentation is made. -/
def runCommand (m : Machine) (verbose : Bool) (command : Command) : Result :=
  match indentCrash? command, m.outOfMemory? verbose command, m.files command.file with
  | some c, _, _ => .crashed "" "" c
  | none, some t, _ => .outOfMemory t
  | none, none, some (.file bytes) => runOn m.files verbose command bytes
  | none, none, _ => .crashed "" "" .directory

/-- Carries out an invocation on a machine. -/
def execute (m : Machine) : Invocation → Result
  | .version => .ended 0 versionText ""
  | .help => .ended 0 helpText ""
  | .request r =>
    match r.command m.files with
    | .error refusal => .refused refusal
    | .ok command => runCommand m r.verbose command

/-- Carries out a command line. -/
def run (m : Machine) (words : List String) : Result :=
  match readInvocation words with
  | .error u => .misused u
  | .ok i => execute m i

end StyleLang.CommandLine
