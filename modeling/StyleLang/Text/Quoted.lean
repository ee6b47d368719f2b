import StyleLang.Text.Printable

/-!
# Quoted text

How a text is shown inside a message: between apostrophes, or between double quotes when it holds an
apostrophe and no double quote. The chosen quote and the backslash are escaped by a backslash, line
feed, return and tab by their letters, and every other unprintable character by its code point in
lower-case hexadecimal, in the narrowest of three widths.
-/

namespace StyleLang.Text

def apostrophe : Char := '\x27'

def doubleQuote : Char := '\x22'

def backslash : Char := '\x5c'

/-- The quote that encloses a text. -/
def quoteFor (cs : List Char) : Char :=
  if apostrophe ∈ cs ∧ doubleQuote ∉ cs then doubleQuote else apostrophe

/-- `n` in lower-case hexadecimal, with zeros in front up to `width` digits. -/
def hex (width n : Nat) : List Char :=
  let digits := Nat.toDigits 16 n
  List.replicate (width - digits.length) '0' ++ digits

/-- One character of the text, as it stands between quotes `q`. -/
def escape (q c : Char) : List Char :=
  if c = q ∨ c = backslash then [backslash, c]
  else if c = '\n' then [backslash, 'n']
  else if c = '\r' then [backslash, 'r']
  else if c = '\t' then [backslash, 't']
  else if isPrintable c then [c]
  else if c.toNat < 0x100 then backslash :: 'x' :: hex 2 c.toNat
  else if c.toNat < 0x10000 then backslash :: 'u' :: hex 4 c.toNat
  else backslash :: 'U' :: hex 8 c.toNat

def quotedChars (cs : List Char) : List Char :=
  let q := quoteFor cs
  q :: cs.flatMap (escape q) ++ [q]

def quoted (s : String) : String :=
  String.ofList (quotedChars s.toList)

end StyleLang.Text
