/-!
# Terminal control sequences

A control sequence begins with the escape character and an opening bracket and goes on with any
number of parameter characters, then any number of intermediate characters, and one final character.
The three classes are ranges of ASCII without a common character, so a text has at most one sequence
at its front. What a command shows leaves the sequences out, so that the name of a file does not
steer the terminal. One pass is made: a sequence that closes up around another which is left out
stays.
-/

namespace StyleLang.Text

def escapeChar : Char := '\x1b'

/-- Digits and the characters after them: colon, semicolon, less, equals, greater, question mark. -/
def isParameter (c : Char) : Bool := '0' ≤ c && c ≤ '?'

/-- The blank and the signs before the digits. -/
def isIntermediate (c : Char) : Bool := ' ' ≤ c && c ≤ '/'

/-- Letters and the signs around them. -/
def isFinal (c : Char) : Bool := '@' ≤ c && c ≤ '~'

/-- What follows a control sequence at the front of a text. -/
def afterControl? : List Char → Option (List Char)
  | e :: '[' :: rest =>
    if e = escapeChar then
      match (rest.dropWhile isParameter).dropWhile isIntermediate with
      | c :: rest' => if isFinal c then some rest' else none
      | [] => none
    else none
  | _ => none

theorem afterControl?_length {cs rest : List Char} (h : afterControl? cs = some rest) :
    rest.length < cs.length := by
  unfold afterControl? at h
  split at h
  case h_1 e tail =>
    split at h
    · split at h
      case h_1 c rest' hd =>
        have hle := ((List.dropWhile_suffix isIntermediate).trans
          (List.dropWhile_suffix isParameter : tail.dropWhile isParameter <:+ tail)).length_le
        rw [hd, List.length_cons] at hle
        split at h
        · obtain rfl := Option.some.inj h
          simp only [List.length_cons]
          omega
        · nomatch h
      case h_2 => nomatch h
    · nomatch h
  case h_2 => nomatch h

/-- A control sequence begins with the escape character. -/
theorem afterControl?_eq_none {c : Char} (cs : List Char) (h : c ≠ escapeChar) :
    afterControl? (c :: cs) = none := by
  unfold afterControl?
  split
  · simp_all
  · rfl

/-- Leaves the control sequences out. -/
def dropControls (cs : List Char) : List Char :=
  match cs with
  | [] => []
  | c :: rest =>
    match _h : afterControl? (c :: rest) with
    | some rest' => dropControls rest'
    | none => c :: dropControls rest
termination_by cs.length
decreasing_by
  · exact afterControl?_length _h
  · simp

/-- A text without escape characters is left as it is. -/
theorem dropControls_eq_self {cs : List Char} (h : escapeChar ∉ cs) : dropControls cs = cs := by
  fun_induction dropControls cs with
  | case1 => rfl
  | case2 c rest rest' h' _ =>
    rw [afterControl?_eq_none rest (fun he => h (by simp [he]))] at h'
    simp at h'
  | case3 c rest _ ih => rw [ih fun he => h (by simp [he])]

def plain (s : String) : String := String.ofList (dropControls s.toList)

end StyleLang.Text
