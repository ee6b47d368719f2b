import StyleLang.Evaluation.Combine
import StyleLang.Fault

/-!
# Folding expressions

Folding reduces an expression to the literal it computes to. A literal folds to itself, a reference
to a copy of the literal bound to its name; both keep what the slot of that literal holds.
-/

namespace StyleLang

/-- A literal together with its slot. -/
structure Constant where
  mark : Mark
  value : Literal
  deriving DecidableEq

def Constant.node (c : Constant) : Node := .literal c.mark c.value

namespace Evaluation

/-- Names with the constants they are bound to. -/
abbrev Values := Chain Constant

/-- Combines two operands; an operand that is no literal cannot be combined. -/
def combine (op : Operator) : Node → Node → Except Fault Literal
  | .literal m left, .literal n right =>
    match combine? op left right with
    | some v => .ok v
    | none => .error (.operands op (.literal m left) (.literal n right))
  | left, right => .error (.operands op left right)

def fold (values : Values) : Node → Except Fault Constant
  | .literal m v => .ok ⟨m, v⟩
  | .reference _ x =>
    match values.resolve x with
    | some c => .ok c
    | none => .error (.undefinedVariable x)
  | .operation _ op l r =>
    match fold values l with
    | .error f => .error f
    | .ok left =>
      match fold values r with
      | .error f => .error f
      | .ok right => (combine op left.node right.node).map (Constant.mk none)
  | other => .error (.expression other)

end Evaluation

end StyleLang
