import StyleLang.Text.Digit
import StyleLang.Text.WordChar

/-!
# Terminals of the language

Each terminal is spelled by a class of character sequences, its lexemes. `spelled?` finds the lexeme
at the front of a text. Keywords have no lexemes of their own: they are names with a special text.
-/

namespace StyleLang.Source

inductive Terminal where
  | pixel
  | percentage
  | color
  | className
  | idName
  | variableName
  | tagName
  | scalar
  | assign
  | colon
  | comma
  | openBrace
  | closeBrace
  | openBracket
  | closeBracket
  | plus
  | minus
  | star
  | semicolon
  | ifWord
  | elseWord
  | trueWord
  | falseWord
  /-- The end of the text. -/
  | ending
  deriving DecidableEq

namespace Terminal

/-- The name of a terminal in messages. -/
def name : Terminal → String
  | pixel => "PIXEL"
  | percentage => "PERCENTAGE"
  | color => "COLOR"
  | className => "CLASS_IDENT"
  | idName => "ID_IDENT"
  | variableName => "VARIABLE"
  | tagName => "LOWER_IDENT"
  | scalar => "SCALAR"
  | assign => "__ANON_0"
  | colon => "COLON"
  | comma => "COMMA"
  | openBrace => "LBRACE"
  | closeBrace => "RBRACE"
  | openBracket => "LSQB"
  | closeBracket => "RSQB"
  | plus => "PLUS"
  | minus => "MINUS"
  | star => "STAR"
  | semicolon => "SEMICOLON"
  | ifWord => "IF"
  | elseWord => "ELSE"
  | trueWord => "TRUE"
  | falseWord => "FALSE"
  | ending => "$END"

/-- The terminals that are spelled, in the order in which they are tried. -/
def spelled : List Terminal :=
  [pixel, percentage, color, className, idName, variableName, tagName, scalar, assign, colon, comma,
   openBrace, closeBrace, openBracket, closeBracket, plus, minus, star, semicolon]

/-- Keywords and the end of the text, which are not spelled. -/
def isSpelled (t : Terminal) : Bool := spelled.contains t

end Terminal

def isUpper (c : Char) : Bool := 'A' ≤ c && c ≤ 'Z'

def isLower (c : Char) : Bool := 'a' ≤ c && c ≤ 'z'

def isArabic (c : Char) : Bool := '0' ≤ c && c ≤ '9'

def isHex (c : Char) : Bool := isArabic c || ('a' ≤ c && c ≤ 'f') || ('A' ≤ c && c ≤ 'F')

/-- Characters of a tag or property name after the first. -/
def isTagChar (c : Char) : Bool := isLower c || isArabic c || c = '-'

/-- Characters of a variable name after the first. -/
def isVariableChar (c : Char) : Bool := isUpper c || isLower c || isArabic c || c = '_'

/-- First characters of the name of a class or id. -/
def isNameStart (c : Char) : Bool := isUpper c || isLower c || c = '_'

/-- Characters of the name of a class or id after the first. -/
def isNameChar (c : Char) : Bool := isVariableChar c || c = '-'

/-- A lexeme and what follows it. -/
abbrev Match := List Char × List Char

/-- One character of the first class and the longest run of the second. -/
def run? (first next : Char → Bool) : List Char → Option Match
  | [] => none
  | c :: cs => if first c then some (c :: cs.takeWhile next, cs.dropWhile next) else none

/-- A given character. -/
def char? (x : Char) : List Char → Option Match
  | [] => none
  | c :: cs => if c = x then some ([c], cs) else none

/-- One match after another. -/
def followedBy? (first second : List Char → Option Match) (cs : List Char) : Option Match :=
  match first cs with
  | none => none
  | some (x, rest) =>
    match second rest with
    | none => none
    | some (y, rest') => some (x ++ y, rest')

/-- Three or six hexadecimal digits with no word character after them. -/
def colorDigits? (cs : List Char) : Option Match :=
  let word := cs.takeWhile Text.isWordChar
  if (word.length = 3 ∨ word.length = 6) ∧ word.all isHex then
    some (word, cs.dropWhile Text.isWordChar)
  else none

/-- The lexeme of a terminal at the front of a text, and the rest of the text. -/
def Terminal.spelled? : Terminal → List Char → Option Match
  | pixel => followedBy? (run? Text.isDigit Text.isDigit) (followedBy? (char? 'p') (char? 'x'))
  | percentage => followedBy? (run? Text.isDigit Text.isDigit) (char? '%')
  | color => followedBy? (char? '#') colorDigits?
  | className => followedBy? (char? '.') (run? isNameStart isNameChar)
  | idName => followedBy? (char? '#') (run? isNameStart isNameChar)
  | variableName => run? isUpper isVariableChar
  | tagName => run? isLower isTagChar
  | scalar => run? Text.isDigit Text.isDigit
  | assign => followedBy? (char? ':') (char? '=')
  | colon => char? ':'
  | comma => char? ','
  | openBrace => char? '\x7b'
  | closeBrace => char? '\x7d'
  | openBracket => char? '['
  | closeBracket => char? ']'
  | plus => char? '+'
  | minus => char? '-'
  | star => char? '*'
  | semicolon => char? ';'
  | _ => fun _ => none

theorem run?_append {p q : Char → Bool} {cs : List Char} {m : Match} (h : run? p q cs = some m) :
    m.1 ++ m.2 = cs ∧ m.1 ≠ [] := by
  cases cs with
  | nil => simp [run?] at h
  | cons c cs =>
    simp only [run?] at h
    split at h
    · cases h
      simp [List.takeWhile_append_dropWhile]
    · simp at h

theorem char?_append {x : Char} {cs : List Char} {m : Match} (h : char? x cs = some m) :
    m.1 ++ m.2 = cs ∧ m.1 ≠ [] := by
  cases cs with
  | nil => simp [char?] at h
  | cons c cs =>
    simp only [char?] at h
    split at h
    · cases h
      simp
    · simp at h

theorem followedBy?_append {f g : List Char → Option Match} {cs : List Char} {m : Match}
    (hf : ∀ {ds n}, f ds = some n → n.1 ++ n.2 = ds ∧ n.1 ≠ [])
    (hg : ∀ {ds n}, g ds = some n → n.1 ++ n.2 = ds)
    (h : followedBy? f g cs = some m) : m.1 ++ m.2 = cs ∧ m.1 ≠ [] := by
  simp only [followedBy?] at h
  split at h
  · simp at h
  · rename_i x rest hx
    split at h
    · simp at h
    · rename_i y rest' hy
      cases h
      have h1 := hf hx
      have h2 := hg hy
      simp only at h1 h2
      refine ⟨by rw [List.append_assoc, h2, h1.1], ?_⟩
      simp [h1.2]

theorem colorDigits?_append {cs : List Char} {m : Match} (h : colorDigits? cs = some m) :
    m.1 ++ m.2 = cs := by
  simp only [colorDigits?] at h
  split at h
  · cases h
    simp [List.takeWhile_append_dropWhile]
  · simp at h

/-- A lexeme is a non-empty front of the text. -/
theorem Terminal.spelled?_append {t : Terminal} {cs : List Char} {m : Match}
    (h : t.spelled? cs = some m) : m.1 ++ m.2 = cs ∧ m.1 ≠ [] := by
  cases t <;> simp only [Terminal.spelled?] at h <;>
    first
    | exact run?_append h
    | exact char?_append h
    | exact followedBy?_append run?_append (fun h => (char?_append h).1) h
    | exact followedBy?_append char?_append (fun h => (run?_append h).1) h
    | exact followedBy?_append char?_append (fun h => (char?_append h).1) h
    | exact followedBy?_append char?_append colorDigits?_append h
    | exact followedBy?_append run?_append
        (fun h => (followedBy?_append char?_append (fun h => (char?_append h).1) h).1) h
    | simp at h

end StyleLang.Source
