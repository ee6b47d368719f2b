import StyleLang.Source.Error
import StyleLang.Source.Reading

/-!
# Parsing

A text is read token by token. It is rejected at the first token or character that the reading does
not allow or, if the text ends too early, at its last token.
-/

namespace StyleLang.Source

/-- Why the text `c :: cs` has no token that the reading allows: the first lexeme of any terminal, or
else the character. -/
def misfit (r : Reading) (c : Char) (cs : List Char) : Cause :=
  match scan? Terminal.spelled (c :: cs) with
  | some (t, _) => .token t.text (r.tried.filter Terminal.isSpelled)
  | none => .character c

/-- The members of a sheet that was read whole, and its first literal with too many digits. -/
abbrev Outcome := List Node × Option Overlong

/-- Reads on to the end of the text `cs`; `last` is the text from the last token on. -/
def readAll (r : Reading) (last cs : List Char) : Except Rejection Outcome :=
  match _h : skip cs with
  | [] =>
    match r.finish with
    | .ok members => .ok (members, r.overlong)
    | .error wanted => .error ⟨.ending wanted, last⟩
  | c :: rest =>
    match _h' : scan? r.tried (c :: rest) with
    | none => .error ⟨misfit r c rest, c :: rest⟩
    | some (t, rest') =>
      match r.advance t with
      | .ok r' => readAll r' (c :: rest) rest'
      | .error wanted => .error ⟨.token t.text wanted, c :: rest⟩
termination_by cs.length
decreasing_by
  have h1 := scan?_length_lt _h'
  have h2 := skip_length cs
  rw [_h] at h2
  simp only at h1
  omega

end StyleLang.Source

namespace StyleLang

/-- The sheet that a text spells. -/
def parse (source : String) : Except Source.ParseFault Sheet :=
  let text := source.toList
  match Source.readAll .start text text with
  | .error r => .error (.rejected (r.error text))
  | .ok (_, some o) => .error (.overlong o.terminal o.digits)
  | .ok (members, none) => .ok ⟨none, members⟩

end StyleLang
