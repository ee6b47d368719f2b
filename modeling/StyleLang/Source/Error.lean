import StyleLang.Source.Terminal
import StyleLang.Text.Decimal
import StyleLang.Text.Place
import StyleLang.Text.Quoted

/-!
# Errors of source text

A text is rejected at a place, for a reason. Apart from that, a text that was read whole fails if one
of its literals has more digits than an integer can be read from.
-/

namespace StyleLang.Source

/-- An error with a place that may be unknown. The column says something only beside a line. -/
structure ParseError where
  reason : String
  line : Option Int
  column : Option Int
  deriving DecidableEq

namespace ParseError

/-- An error at a line and column; without a line from one on, the place is unknown. -/
def make (reason : String) (line column : Option Int) : ParseError :=
  match line with
  | none => ⟨reason, none, none⟩
  | some n => if n < 1 then ⟨reason, none, none⟩ else ⟨reason, some n, column⟩

def columnText : Option Int → String
  | none => "None"
  | some n => toString n

def message (e : ParseError) : String :=
  match e.line with
  | none => e.reason
  | some n =>
    "line " ++ toString n ++ ", column " ++ columnText e.column ++ ": " ++ e.reason

end ParseError

/-- Why a text is rejected. -/
inductive Cause where
  /-- No terminal has a lexeme that begins here. -/
  | character (found : Char)
  | token (found : List Char) (wanted : List Terminal)
  | ending (wanted : List Terminal)
  deriving DecidableEq

/-- The end of a reason: the terminals wanted. -/
def wantedText (wanted : List Terminal) : String :=
  "; expected one of: " ++ String.intercalate ", " (wanted.map Terminal.name)

def Cause.reason : Cause → String
  | character c => "unexpected character " ++ Text.quoted (String.singleton c)
  | token found wanted =>
    "unexpected " ++ Text.quoted (String.ofList found) ++ wantedText wanted
  | ending wanted => "unexpected end of input" ++ wantedText wanted

/-- A rejected text: why, and what is left of the text from the place of the error on. -/
structure Rejection where
  cause : Cause
  rest : List Char
  deriving DecidableEq

/-- The error of a rejection in the given text. -/
def Rejection.error (source : List Char) (r : Rejection) : ParseError :=
  let place := Text.placeAfter (source.take (source.length - r.rest.length))
  .make r.cause.reason (some place.line) (some place.column)

/-- What is said of a literal with too many digits. -/
def overlongMessage (t : Terminal) (digits : Nat) : String :=
  "Error trying to process rule \"" ++ ruleName t ++ "\":\n\n" ++ Text.tooLongToRead digits
where
  ruleName : Terminal → String
    | .pixel => "pixel_literal"
    | .percentage => "percentage_literal"
    | _ => "scalar_literal"

/-- Why a text cannot be read. -/
inductive ParseFault where
  | rejected (error : ParseError)
  | overlong (terminal : Terminal) (digits : Nat)
  deriving DecidableEq

def ParseFault.message : ParseFault → String
  | rejected e => e.message
  | overlong t digits => overlongMessage t digits

end StyleLang.Source
