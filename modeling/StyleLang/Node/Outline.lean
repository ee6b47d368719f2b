import StyleLang.Css

/-!
# Outlines

An outline shows a tree with one row per statement, indented by level. An expression is part of the
row of its statement; a filled slot of a statement is shown at the end of its row.
-/

namespace StyleLang

/-- A row of an outline: how far it stands below the root, and its text. -/
structure Row where
  level : Nat
  text : String
  deriving DecidableEq

/-- The row as a line, two spaces for each level, when the root stands at the given depth. -/
def Row.line (depth : Int) (r : Row) : String :=
  String.join (List.replicate (depth + r.level).toNat "  ") ++ r.text

namespace Node

/-- An expression on one line, operations in parentheses. -/
def inline : Node → Except Fault String
  | literal m v => (Css.value (literal m v)).map fun t => v.nodeName ++ "(" ++ t ++ ")"
  | reference _ x => .ok x
  | operation _ op l r => do
    let left ← l.inline
    let right ← r.inline
    return "(" ++ left ++ " " ++ op.symbol ++ " " ++ right ++ ")"
  | other => .error (.expression other)

/-- What a filled slot adds to a row. -/
def remark (m : Mark) : String :=
  match m with
  | none => ""
  | some d => "  !! " ++ d.message

mutual

/-- The rows of a statement that stands at the given level, and of all below it. -/
def rows (level : Nat) : Node → Except Fault (List Row)
  | sheet m members => do
    let below ← rowsAll (level + 1) members
    return ⟨level, "Stylesheet" ++ remark m⟩ :: below
  | rule m ss body => do
    let below ← rowsAll (level + 1) body
    return ⟨level, "Stylerule " ++ Selector.textAll ss ++ remark m⟩ :: below
  | declaration m p e => do
    let value ← e.inline
    return [⟨level, "Declaration " ++ p ++ ": " ++ value ++ remark m⟩]
  | assignment m x e => do
    let value ← e.inline
    return [⟨level, "Assignment " ++ x ++ " := " ++ value ++ remark m⟩]
  | ifClause m c body => do
    let condition ← c.inline
    let below ← rowsAll (level + 1) body
    return ⟨level, "If [" ++ condition ++ "]" ++ remark m⟩ :: below
  | ifElse m c body em ebody => do
    let condition ← c.inline
    let below ← rowsAll (level + 1) body
    let others ← rowsAll (level + 2) ebody
    return ⟨level, "If [" ++ condition ++ "]" ++ remark m⟩ :: below
      ++ ⟨level + 1, "Else" ++ remark em⟩ :: others
  | elseClause m body => do
    let below ← rowsAll (level + 1) body
    return ⟨level, "Else" ++ remark m⟩ :: below
  | other => .error (.outlined other)

/-- The rows of the nodes that are no expressions. -/
def rowsAll (level : Nat) : List Node → Except Fault (List Row)
  | [] => .ok []
  | n :: ns =>
    if n.isExpression then rowsAll level ns
    else do
      let first ← n.rows level
      let others ← rowsAll level ns
      return first ++ others

end

/-- The lines of an outline whose root stands at the given depth. -/
def outline (depth : Int) (n : Node) : Except Fault (List String) :=
  (n.rows 0).map fun rs => rs.map (Row.line depth)

end Node

def Sheet.outline (s : Sheet) : Except Fault (List String) := s.node.outline 0

end StyleLang
