import StyleLang.Source.Terminal

/-!
# Scanning

A token is read with a list of terminals in mind: the first of them, in the order of
`Terminal.spelled`, that has a lexeme at the front of the text. A name whose text is a keyword is that
keyword if the keyword is on the list, and stays a name otherwise. Blanks and comments stand between
tokens; a comment ends at the first `*/`, and one that has no end is no comment.
-/

namespace StyleLang.Source

structure Token where
  terminal : Terminal
  text : List Char
  deriving DecidableEq

/-- The keyword that a name may stand for. -/
def keyword? : Terminal → List Char → Option Terminal
  | .tagName, ['i', 'f'] => some .ifWord
  | .tagName, ['e', 'l', 's', 'e'] => some .elseWord
  | .variableName, ['T', 'R', 'U', 'E'] => some .trueWord
  | .variableName, ['F', 'A', 'L', 'S', 'E'] => some .falseWord
  | _, _ => none

/-- The terminal of a lexeme among the terminals tried. -/
def classify (tried : List Terminal) (t : Terminal) (text : List Char) : Terminal :=
  match keyword? t text with
  | some k => if k ∈ tried then k else t
  | none => t

/-- The token at the front of a text, and the rest of the text. -/
def scan? (tried : List Terminal) (cs : List Char) : Option (Token × List Char) :=
  Terminal.spelled.findSome? fun t =>
    if t ∈ tried then (t.spelled? cs).map fun m => (⟨classify tried t m.1, m.1⟩, m.2) else none

theorem scan?_append {tried : List Terminal} {cs : List Char} {r : Token × List Char}
    (h : scan? tried cs = some r) : r.1.text ++ r.2 = cs ∧ r.1.text ≠ [] := by
  obtain ⟨t, -, ht⟩ := List.exists_of_findSome?_eq_some h
  split at ht
  · obtain ⟨m, hm, rfl⟩ := Option.map_eq_some_iff.1 ht
    exact Terminal.spelled?_append hm
  · simp at ht

theorem scan?_length_lt {tried : List Terminal} {cs : List Char} {r : Token × List Char}
    (h : scan? tried cs = some r) : r.2.length < cs.length := by
  obtain ⟨h1, h2⟩ := scan?_append h
  have := congrArg List.length h1
  have h3 := List.length_pos_iff.2 h2
  simp only [List.length_append] at this
  omega

def isBlank (c : Char) : Bool :=
  c = ' ' || c = '\t' || c = '\n' || c = '\x0c' || c = '\r'

/-- What follows the first `*/`, if there is one. -/
def afterCommentEnd? : List Char → Option (List Char)
  | '*' :: '/' :: rest => some rest
  | _ :: rest => afterCommentEnd? rest
  | [] => none

/-- What follows a comment at the front of a text. -/
def afterComment? : List Char → Option (List Char)
  | '/' :: '*' :: rest => afterCommentEnd? rest
  | _ => none

theorem afterCommentEnd?_length {cs rest : List Char} (h : afterCommentEnd? cs = some rest) :
    rest.length < cs.length := by
  fun_induction afterCommentEnd? cs with
  | case1 tail =>
    cases h
    simp only [List.length_cons]
    omega
  | case2 c cs _ ih =>
    have := ih h
    simp only [List.length_cons]
    omega
  | case3 => simp at h

theorem afterComment?_length {cs rest : List Char} (h : afterComment? cs = some rest) :
    rest.length < cs.length := by
  fun_cases afterComment? cs with
  | case1 tail =>
    have hlt : rest.length < tail.length :=
      afterCommentEnd?_length (by simpa [afterComment?] using h)
    simp only [List.length_cons]
    omega
  | case2 => simp_all [afterComment?]

/-- Drops blanks and comments from the front of a text. -/
def skip (cs : List Char) : List Char :=
  match cs with
  | [] => []
  | c :: rest =>
    if isBlank c then skip rest
    else
      match _h : afterComment? (c :: rest) with
      | some rest' => skip rest'
      | none => c :: rest
termination_by cs.length
decreasing_by
  · simp
  · exact afterComment?_length _h

theorem skip_length (cs : List Char) : (skip cs).length ≤ cs.length := by
  fun_induction skip cs with
  | case1 => simp
  | case2 c rest _ ih =>
    simp only [List.length_cons]
    omega
  | case3 c rest _ rest' h ih =>
    have := afterComment?_length h
    omega
  | case4 => simp

end StyleLang.Source
