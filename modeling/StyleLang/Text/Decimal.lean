/-!
# Integers as text

An integer is written in base ten with a sign only when it is negative. Neither writing nor reading
handles more than 4300 digits.
-/

namespace StyleLang.Text

/-- The number of digits that an integer's text may have, the sign apart. -/
def maxDigits : Nat := 4300

/-- The text of an integer, if it is short enough to be written. -/
def decimal? (n : Int) : Option String :=
  if (Nat.repr n.natAbs).length ≤ maxDigits then some (toString n) else none

/-- What is said of an integer too long to be written. -/
def tooLongToWrite : String :=
  "Exceeds the limit (4300 digits) for integer string conversion; " ++
    "use sys.set_int_max_str_digits() to increase the limit"

/-- What is said of a text of `digits` digits, too long to be read as an integer. -/
def tooLongToRead (digits : Nat) : String :=
  "Exceeds the limit (4300 digits) for integer string conversion: value has " ++ toString digits ++
    " digits; use sys.set_int_max_str_digits() to increase the limit"

end StyleLang.Text
