import StyleLang.Diagnostic
import StyleLang.ValueType

/-!
# Typing rules

Each rule looks at types that were inferred already and says which diagnostic, if any, the violation
earns. Which node carries it is decided where the rule is applied.
-/

namespace StyleLang

/-- The types that properties require; a property without one takes values of any type. -/
abbrev PropertyTable := List (String × Option ValueType)

namespace PropertyTable

def builtin : PropertyTable :=
  [("width", some .pixel), ("color", some .color), ("background-color", some .color)]

/-- Sets the entry of a property, in its place if it has one and else at the end. -/
def insert (table : PropertyTable) (property : String) (type : Option ValueType) : PropertyTable :=
  match table with
  | [] => [(property, type)]
  | (p, t) :: rest =>
    if p = property then (p, type) :: rest else (p, t) :: insert rest property type

/-- The built-in table with the given entries over it. -/
def withOverrides (overrides : PropertyTable) : PropertyTable :=
  overrides.foldl (fun table entry => table.insert entry.1 entry.2) builtin

/-- The type that a property requires, if any. -/
def required (table : PropertyTable) (property : String) : Option ValueType :=
  (table.lookup property).join

end PropertyTable

namespace Typing

/-- A property with a required type takes values of that type only. -/
def checkProperty (table : PropertyTable) (property : String) (actual : Option ValueType)
    (selector : Option String) : Option Diagnostic :=
  match table.required property with
  | none => none
  | some required =>
    if actual = some required then none
    else some
      { rule := "property_type"
        category := .type
        message := "Only " ++ required.name ++ " values can be assigned to property '" ++ property
          ++ "'"
        selector }

/-- The condition of an if-clause is a boolean. -/
def checkCondition (actual : Option ValueType) (selector : Option String) : Option Diagnostic :=
  if actual = some .bool then none
  else some
    { rule := "condition_not_bool"
      category := .type
      message := "If-clause condition must be a boolean"
      selector }

def undefinedVariable (name : String) (selector : Option String) : Diagnostic :=
  { rule := "undefined_variable"
    category := .unresolved
    message := "Variable " ++ name ++ " is not defined"
    selector }

/-- No operand is a color, then no operand is a boolean, then the operator has its way: a product
has a scalar factor, a sum or difference has operands of one type. -/
def checkOperands (op : Operator) (left right : ValueType) (selector : Option String) :
    Option Diagnostic :=
  if left = .color ∨ right = .color then
    some ⟨"color_in_operation", .operand, "Colors cannot be used in operations", selector⟩
  else if left = .bool ∨ right = .bool then
    some ⟨"bool_in_operation", .operand, "Booleans cannot be used in operations", selector⟩
  else if op = .multiply then
    if left = .scalar ∨ right = .scalar then none
    else some ⟨"scalar_required", .operand, "At least one operand of * must be a scalar", selector⟩
  else if left = right then none
  else some ⟨"operand_mismatch", .operand,
    "Operands of + and - must be of the same type (got " ++ left.name ++ " " ++ op.symbol ++ " "
      ++ right.name ++ ")", selector⟩

/-- The type of an operation whose operands have passed. -/
def operationType (op : Operator) (left right : ValueType) : ValueType :=
  if op = .multiply ∧ left = .scalar then right else left

end Typing

end StyleLang
