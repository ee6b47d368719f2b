import StyleLang.Text.Decimal
import StyleLang.Text.Digit

/-!
# Reading integers

An integer is a sign, which may be missing, and decimal digits of any script, with single low lines
allowed between them. White space around it is ignored.
-/

namespace StyleLang.Text

/-- White space around an integer. -/
def isSpace (c : Char) : Bool :=
  (0x9 ≤ c.toNat && c.toNat ≤ 0xd) || (0x2000 ≤ c.toNat && c.toNat ≤ 0x200a) ||
    [0x20, 0x85, 0xa0, 0x1680, 0x2028, 0x2029, 0x202f, 0x205f, 0x3000].contains c.toNat

/-- The digits of a text of digits in which a low line may stand between two digits. -/
def groupedDigits? : List Char → Option (List Char)
  | [] => none
  | [c] => if isDigit c then some [c] else none
  | c :: '_' :: rest => if isDigit c then (groupedDigits? rest).map (c :: ·) else none
  | c :: rest => if isDigit c then (groupedDigits? rest).map (c :: ·) else none

def unsigned? (cs : List Char) : Option Nat :=
  match groupedDigits? cs with
  | some digits => if digits.length ≤ maxDigits then some (numberOf digits) else none
  | none => none

/-- The integer that a text writes. -/
def integer? (s : String) : Option Int :=
  let body := ((s.toList.dropWhile isSpace).reverse.dropWhile isSpace).reverse
  match body with
  | '+' :: digits => (unsigned? digits).map Int.ofNat
  | '-' :: digits => (unsigned? digits).map fun n => -(n : Int)
  | digits => (unsigned? digits).map Int.ofNat

end StyleLang.Text
