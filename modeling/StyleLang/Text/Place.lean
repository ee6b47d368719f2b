/-!
# Lines and columns

A place in a text, counted from one. Only the line feed ends a line; a column counts code points.
-/

namespace StyleLang.Text

structure Place where
  line : Nat
  column : Nat
  deriving DecidableEq

/-- The place just after the given text. -/
def placeAfter (before : List Char) : Place where
  line := 1 + before.count '\n'
  column := 1 + (before.reverse.takeWhile (· ≠ '\n')).length

end StyleLang.Text
