/-!
# Selectors

A selector picks elements by tag, class or id. The set of kinds is open: a kind without a sign of
its own is written like a tag.
-/

namespace StyleLang

structure Selector where
  kind : String
  value : String
  deriving DecidableEq

namespace Selector

def tag (value : String) : Selector := ⟨"tag", value⟩

def ofClass (value : String) : Selector := ⟨"class", value⟩

def ofId (value : String) : Selector := ⟨"id", value⟩

/-- The sign in front of a selector of the given kind. -/
def sign (kind : String) : String :=
  if kind = "class" then "." else if kind = "id" then "#" else ""

def text (s : Selector) : String := sign s.kind ++ s.value

/-- The selectors of one style rule. -/
def textAll (ss : List Selector) : String := String.intercalate ", " (ss.map text)

end Selector

end StyleLang
