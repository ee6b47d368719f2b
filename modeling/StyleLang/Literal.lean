import StyleLang.ValueType

/-!
# Literals

A literal is a value that needs no evaluation. Magnitudes are unbounded integers of either sign; a
color is kept as the text it was written with.
-/

namespace StyleLang

inductive Literal where
  | pixel (value : Int)
  | percentage (value : Int)
  | color (text : String)
  | scalar (value : Int)
  | bool (value : Bool)
  deriving DecidableEq

namespace Literal

def type : Literal → ValueType
  | pixel _ => .pixel
  | percentage _ => .percentage
  | color _ => .color
  | scalar _ => .scalar
  | bool _ => .bool

/-- The class name of a literal node. -/
def nodeName : Literal → String
  | pixel _ => "PixelLiteral"
  | percentage _ => "PercentageLiteral"
  | color _ => "ColorLiteral"
  | scalar _ => "ScalarLiteral"
  | bool _ => "BoolLiteral"

end Literal

end StyleLang
