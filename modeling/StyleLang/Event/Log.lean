import StyleLang.Event
import StyleLang.Text.Quoted

/-!
# Log records

Every event can be logged. A compilation's beginning and end are of level INFO, its failure is a
WARNING, and all else is for DEBUG only. A logger keeps the records from its level upwards.
-/

namespace StyleLang

inductive LogLevel where
  | debug
  | info
  | warning
  | error
  | critical
  deriving DecidableEq

namespace LogLevel

def name : LogLevel → String
  | debug => "DEBUG"
  | info => "INFO"
  | warning => "WARNING"
  | error => "ERROR"
  | critical => "CRITICAL"

def rank : LogLevel → Nat
  | debug => 10
  | info => 20
  | warning => 30
  | error => 40
  | critical => 50

end LogLevel

structure LogRecord where
  level : LogLevel
  message : String
  deriving DecidableEq

/-- The record of an event. -/
def Event.logged : Event → LogRecord
  | compilationStarted source => ⟨.info, "Compiling " ++ source⟩
  | compilationCompleted source rules =>
    ⟨.info, "Compiled " ++ source ++ ": rules=" ++ toString rules⟩
  | compilationFailed phase error diagnostics =>
    ⟨.warning, "Compilation failed in " ++ phase ++ ": " ++ error ++ " (diagnostics="
      ++ toString diagnostics ++ ")"⟩
  | phaseStarted phase => ⟨.debug, "Phase started: " ++ phase⟩
  | phaseCompleted phase => ⟨.debug, "Phase completed: " ++ phase⟩
  | other text => ⟨.debug, "Event: " ++ Text.quoted text⟩

/-- The records that a logger of the given level keeps. -/
def logRecords (threshold : LogLevel) (events : List Event) : List LogRecord :=
  (events.map Event.logged).filter fun r => threshold.rank ≤ r.level.rank

/-- A record as a line of text. -/
def LogRecord.line (r : LogRecord) : String := r.level.name ++ " icss: " ++ r.message ++ "\n"

end StyleLang
