import StyleLang.Compile.Failure
import StyleLang.Css
import StyleLang.Evaluation.Evaluate
import StyleLang.Event
import StyleLang.Source.Parse
import StyleLang.Typing.Check

/-!
# The compiler

A compilation parses a text, checks the sheet, evaluates it and writes it as CSS, and tells a
listener where it is. A sheet is evaluated only if checking leaves no diagnostic in it, be it a new
one or one that was there before. A listener that fails ends the compilation.
-/

namespace StyleLang

structure Config where
  layout : Layout
  /-- Entries over the built-in property table. -/
  properties : PropertyTable
  deriving DecidableEq

namespace Config

def standard : Config := ⟨.standard, []⟩

def table (c : Config) : PropertyTable := .withOverrides c.properties

end Config

/-- A listener hears events one by one and may fail, which is told by a message. -/
structure Listener (σ : Type) where
  hear : Event → σ → σ × Option String

/-- A listener that remembers what it hears. -/
def Listener.recorder : Listener (List Event) := ⟨fun e heard => (heard ++ [e], none)⟩

/-- A listener that remembers what it hears and fails once it has heard the event of a given number,
counted from zero. -/
def Listener.aborting (number : Nat) : Listener (List Event) :=
  ⟨fun e heard =>
    (heard ++ [e], if heard.length = number then some "listener aborted" else none)⟩

/-- What a compilation works on: the listener's state and the sheet. -/
structure Desk (σ : Type) where
  heard : σ
  sheet : Sheet

/-- A step of a compilation. What it did before a failure stays done. -/
abbrev Work (σ α : Type) := ExceptT Failure (StateM (Desk σ)) α

namespace Compiler

variable {σ : Type}

def emit (l : Listener σ) (e : Event) : Work σ Unit := do
  let desk ← get
  let reaction := l.hear e desk.heard
  set { desk with heard := reaction.1 }
  match reaction.2 with
  | none => return ()
  | some message => throw (.listener message)

/-- Runs a pass over the sheet. -/
def pass {α : Type} (f : Sheet → Passage α Sheet Unit) : Work σ Unit := do
  let desk ← get
  let passage := f desk.sheet
  set { desk with sheet := passage.tree }
  match passage.result with
  | .ok () => return ()
  | .error cause => throw (.fault cause)

/-- Reads a text. Of the failures of reading only a rejection is announced. -/
def parse (l : Listener σ) (source : String) : Work σ Sheet := do
  emit l (.phaseStarted "parse")
  match StyleLang.parse source with
  | .ok s =>
    emit l (.phaseCompleted "parse")
    return s
  | .error (.rejected e) =>
    emit l (.compilationFailed "parse" e.message 0)
    throw (.source (.rejected e))
  | .error (.overlong t n) => throw (.source (.overlong t n))

/-- Checks the sheet and returns every diagnostic in it. -/
def check (l : Listener σ) (config : Config) : Work σ (List Diagnostic) := do
  emit l (.phaseStarted "check")
  pass (Sheet.check config.table)
  emit l (.phaseCompleted "check")
  return (← get).sheet.diagnostics

def evaluate (l : Listener σ) : Work σ Unit := do
  emit l (.phaseStarted "evaluate")
  pass Sheet.evaluate
  emit l (.phaseCompleted "evaluate")

def generate (l : Listener σ) (config : Config) : Work σ String := do
  emit l (.phaseStarted "generate")
  match (← get).sheet.css config.layout with
  | .ok css =>
    emit l (.phaseCompleted "generate")
    return css
  | .error cause => throw (.fault cause)

/-- Checks the sheet and fails if there is a diagnostic in it. -/
def checkOrFail (l : Listener σ) (config : Config) : Work σ Unit := do
  match ← check l config with
  | [] => return ()
  | d :: ds =>
    emit l (.compilationFailed "check" (rejectionMessage (d :: ds)) (d :: ds).length)
    throw (.diagnostics (d :: ds))

/-- Compiles the sheet that lies ready. -/
def compileSheet (l : Listener σ) (config : Config) : Work σ String := do
  checkOrFail l config
  evaluate l
  generate l config

/-- The name of a text that has none. -/
def defaultName : String := "<string>"

/-- Compiles a text. -/
def compile (l : Listener σ) (config : Config) (name source : String) : Work σ String := do
  emit l (.compilationStarted name)
  let s ← parse l source
  modify fun desk => { desk with sheet := s }
  let css ← compileSheet l config
  emit l (.compilationCompleted name (← get).sheet.rules.length)
  return css

end Compiler

/-- Runs a step on a desk: how it ended, and what it left on the desk. -/
def Work.runOn {σ α : Type} (w : Work σ α) (desk : Desk σ) : Except Failure α × Desk σ :=
  (ExceptT.run w).run desk

/-- Compiles a text from nothing: how it ended, and what the listener has heard. -/
def compile {σ : Type} (l : Listener σ) (heard : σ) (config : Config) (name source : String) :
    Except Failure String × σ :=
  let ended := (Compiler.compile l config name source).runOn ⟨heard, ⟨none, []⟩⟩
  (ended.1, ended.2.heard)

end StyleLang
