/-!
# Types of values and operators

Every value is of one of five types. Operators are the same for all of them; which operands they
accept is decided by the typing rules and by evaluation.
-/

namespace StyleLang

inductive ValueType where
  | pixel
  | percentage
  | color
  | scalar
  | bool
  deriving DecidableEq

namespace ValueType

def name : ValueType → String
  | pixel => "pixel"
  | percentage => "percentage"
  | color => "color"
  | scalar => "scalar"
  | bool => "bool"

def all : List ValueType := [pixel, percentage, color, scalar, bool]

def ofName? (s : String) : Option ValueType := all.find? (·.name = s)

theorem ofName?_name (t : ValueType) : ofName? t.name = some t := by
  cases t <;> rfl

end ValueType

inductive Operator where
  | add
  | subtract
  | multiply
  deriving DecidableEq

namespace Operator

def symbol : Operator → String
  | add => "+"
  | subtract => "-"
  | multiply => "*"

/-- The class name of an operation node. -/
def nodeName : Operator → String
  | add => "AddOperation"
  | subtract => "SubtractOperation"
  | multiply => "MultiplyOperation"

end Operator

end StyleLang
