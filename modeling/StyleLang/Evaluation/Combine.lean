import StyleLang.Literal

/-!
# Arithmetic on literals

Addition and subtraction combine magnitudes of one unit; a scalar next to a pixel counts as pixels.
Multiplication scales a magnitude by a scalar on either side. Colors and booleans take no part.
-/

namespace StyleLang.Evaluation

/-- The units of magnitudes. -/
inductive Dimension where
  | pixel
  | percentage
  | scalar
  deriving DecidableEq

def Dimension.literal : Dimension → Int → Literal
  | pixel, n => .pixel n
  | percentage, n => .percentage n
  | scalar, n => .scalar n

/-- The unit and the number of a literal that is a magnitude. -/
def magnitude? : Literal → Option (Dimension × Int)
  | .pixel n => some (.pixel, n)
  | .percentage n => some (.percentage, n)
  | .scalar n => some (.scalar, n)
  | .color _ => none
  | .bool _ => none

/-- The unit of a sum or difference. -/
def Dimension.sum? : Dimension → Dimension → Option Dimension
  | pixel, pixel => some pixel
  | percentage, percentage => some percentage
  | scalar, scalar => some scalar
  | pixel, scalar => some pixel
  | scalar, pixel => some pixel
  | _, _ => none

/-- The unit of a product. -/
def Dimension.product? : Dimension → Dimension → Option Dimension
  | scalar, d => some d
  | d, scalar => some d
  | _, _ => none

/-- The unit of an operation on two magnitudes. -/
def Dimension.operation? : Operator → Dimension → Dimension → Option Dimension
  | .multiply => product?
  | _ => sum?

/-- The operation on the bare numbers. -/
def apply : Operator → Int → Int → Int
  | .add, a, b => a + b
  | .subtract, a, b => a - b
  | .multiply, a, b => a * b

/-- Combines two literals, if their units allow. -/
def combine? (op : Operator) (left right : Literal) : Option Literal :=
  match magnitude? left, magnitude? right with
  | some (d, a), some (e, b) => (Dimension.operation? op d e).map fun u => u.literal (apply op a b)
  | _, _ => none

end StyleLang.Evaluation
