import StyleLang.CommandLine.Files
import StyleLang.CommandLine.Invocation
import StyleLang.Text.Integer

/-!
# Commands

A request becomes a command when its words stand for something: the indentation for an integer, the
output for no directory, the operand for a file that is there. They are looked at one after the other,
the options where each is first set and then the operands, and the first that fails is the one
reported.
-/

namespace StyleLang.CommandLine

inductive Command where
  | compile (file : String) (output : Option String) (indent : Int)
  | check (file : String)
  | inspect (file : String) (evaluated : Bool)
  deriving DecidableEq

def Command.file : Command → String
  | compile file _ _ => file
  | check file => file
  | inspect file _ => file

/-- Why a request does not become a command. -/
inductive Refusal where
  | usage (cause : Usage)
  | nullInPath
  deriving DecidableEq

/-- The spaces per level when nothing is said of them. -/
def defaultIndent : Int := 2

/-- The indentation that was set. -/
def Parsed.indent (p : Parsed Key) : Except Refusal Int :=
  match p.value? .indent with
  | none => .ok defaultIndent
  | some w =>
    match Text.integer? w with
    | some n => .ok n
    | none => .error (.usage (.noInteger w))

/-- What is at a path, unless the path cannot be looked at. -/
def Files.lookAt (files : Files) (path : String) : Except Refusal (Option Entry) :=
  if holdsNull path then .error .nullInPath else .ok (files path)

/-- The path of the output that was set; it may lead nowhere yet, but not to a directory. -/
def Parsed.output (files : Files) (p : Parsed Key) : Except Refusal (Option String) :=
  match p.value? .output with
  | none => .ok none
  | some path => do
    match ← files.lookAt path with
    | some .directory => .error (.usage (.isDirectory path))
    | _ => .ok (some path)

/-- Looks at the value that was set for an option. -/
def Parsed.lookAtOption (files : Files) (p : Parsed Key) : Key → Except Refusal Unit
  | .indent => discard p.indent
  | .output => discard (p.output files)
  | _ => .ok ()

/-- The only operand. -/
def Parsed.file (files : Files) (p : Parsed Key) : Except Refusal String :=
  match p.operands with
  | [] => .error (.usage .operandMissing)
  | file :: others => do
    match ← files.lookAt file, others with
    | none, _ => .error (.usage (.noSuchFile file))
    | some _, [] => .ok file
    | some _, extra :: _ => .error (.usage (.operandUnexpected extra))

/-- The command that is requested where the given files are. -/
def Request.command (files : Files) (r : Request) : Except Refusal Command := do
  r.words.settings.forM fun s => r.words.lookAtOption files s.key
  let file ← r.words.file files
  match r.task with
  | .compile => return .compile file (← r.words.output files) (← r.words.indent)
  | .check => return .check file
  | .inspect => return .inspect file (r.words.isSet .evaluated)

/-- The paths that a request mentions, with those that they pass. -/
def Request.paths (r : Request) : List String :=
  let mentioned := r.words.operands ++ (r.words.value? .output).toList
  mentioned ++ mentioned.flatMap passed

def Invocation.paths : Invocation → List String
  | .request r => r.paths
  | .version | .help => []

end StyleLang.CommandLine
