/-!
# Events

What a compilation tells its listeners. An event may also be some other object, known by its text.
-/

namespace StyleLang

inductive Event where
  | compilationStarted (source : String)
  | compilationCompleted (source : String) (rules : Int)
  | compilationFailed (phase error : String) (diagnostics : Int)
  | phaseStarted (phase : String)
  | phaseCompleted (phase : String)
  | other (text : String)
  deriving DecidableEq

/-- The classes of events. -/
inductive EventClass where
  | compilationStarted
  | compilationCompleted
  | compilationFailed
  | phaseStarted
  | phaseCompleted
  | other
  deriving DecidableEq

def Event.kind : Event → EventClass
  | compilationStarted _ => .compilationStarted
  | compilationCompleted _ _ => .compilationCompleted
  | compilationFailed _ _ _ => .compilationFailed
  | phaseStarted _ => .phaseStarted
  | phaseCompleted _ => .phaseCompleted
  | other _ => .other

end StyleLang
