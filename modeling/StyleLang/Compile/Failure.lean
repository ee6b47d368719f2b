import StyleLang.Fault
import StyleLang.Source.Error

/-!
# Failures of a compilation

A compilation fails because the text cannot be read, because checking left diagnostics, because a
pass met a fault, or because a listener failed.
-/

namespace StyleLang

inductive Failure where
  | source (cause : Source.ParseFault)
  | diagnostics (found : List Diagnostic)
  | fault (cause : Fault)
  | listener (message : String)
  deriving DecidableEq

/-- What is said of a sheet on which checking left diagnostics. -/
def rejectionMessage (found : List Diagnostic) : String :=
  "Compilation failed with " ++ toString found.length ++ " error(s): "
    ++ String.intercalate "; " (found.map Diagnostic.text)

def Failure.message : Failure → String
  | source cause => cause.message
  | diagnostics found => rejectionMessage found
  | fault cause => cause.report.message
  | listener message => message

end StyleLang
