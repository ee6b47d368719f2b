import StyleLang.Node.Description
import StyleLang.Node.Equality
import StyleLang.Scope

/-!
# Faults

A fault ends a pass over a tree. Its cause names the object at which the pass stopped. A fault whose
message would show an integer that is too long to be written is reported as that instead.
-/

namespace StyleLang

inductive Fault where
  /-- A scope could not be left or bound in. -/
  | scope (cause : ScopeFault)
  /-- A member of a sheet is neither an assignment nor a rule. -/
  | sheetMember (found : Node)
  /-- A member of a body is neither a declaration, an assignment nor an if-clause. -/
  | bodyMember (found : Node)
  /-- An expression is neither a literal, a reference nor an operation. -/
  | expression (found : Node)
  /-- A node has no line of its own in an outline. -/
  | outlined (found : Node)
  | undefinedVariable (name : String)
  /-- No rule of arithmetic combines the operands. -/
  | operands (op : Operator) (lhs rhs : Node)
  /-- An expression to be written is no literal. -/
  | unevaluated (found : Node)
  /-- A member of a sheet to be written is no rule. -/
  | notRule (found : Node)
  /-- A member of a rule to be written is no declaration. -/
  | notDeclaration (selectors : String) (found : Node)
  /-- An integer is too long to be written. -/
  | tooLong
  deriving DecidableEq

/-- The kinds that reports fall into. -/
inductive FaultKind where
  | scope
  | type
  | evaluation
  | generation
  | value
  deriving DecidableEq

structure FaultReport where
  kind : FaultKind
  message : String
  deriving DecidableEq

namespace Fault

/-- The kind of the fault, its message aside. -/
def kind : Fault → FaultKind
  | scope _ => .scope
  | sheetMember _ => .type
  | bodyMember _ => .type
  | expression _ => .type
  | outlined _ => .type
  | undefinedVariable _ => .evaluation
  | operands _ _ _ => .evaluation
  | unevaluated _ => .generation
  | notRule _ => .generation
  | notDeclaration _ _ => .generation
  | tooLong => .value

/-- The message, unless an integer in it is too long to be written. -/
def message? : Fault → Option String
  | scope cause => some cause.message
  | sheetMember found => (found.describe?).map ("Unexpected stylesheet member: " ++ ·)
  | bodyMember found => (found.describe?).map ("Unexpected rule member: " ++ ·)
  | expression found => (found.describe?).map ("Unexpected expression: " ++ ·)
  | outlined found => (found.describe?).map ("Unexpected node: " ++ ·)
  | undefinedVariable name => some ("Variable " ++ name ++ " is not defined")
  | operands op l r => do
    let left ← l.describe?
    let right ← r.describe?
    some ("Cannot evaluate " ++ left ++ " " ++ op.symbol ++ " " ++ right)
  | unevaluated found => (found.describe?).map ("Expression was not evaluated: " ++ ·)
  | notRule found =>
    (found.describe?).map ("Only style rules may remain after evaluation, found " ++ ·)
  | notDeclaration selectors found =>
    some ("Only declarations may remain in rule '" ++ selectors ++ "', found " ++ found.kindName)
  | tooLong => none

def report (f : Fault) : FaultReport :=
  match f.message? with
  | some message => ⟨f.kind, message⟩
  | none => ⟨.value, Text.tooLongToWrite⟩

end Fault

/-- The description of a node, or the fault that an integer in it is too long to be written. -/
def Node.description (n : Node) : Except Fault String :=
  match n.describe? with
  | some text => .ok text
  | none => .error .tooLong

end StyleLang
