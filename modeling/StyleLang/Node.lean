import StyleLang.Diagnostic
import StyleLang.Literal
import StyleLang.Selector

/-!
# The tree

One type holds every kind of node, because a tree may have any node at any place: which nodes are
well placed is a question that checking answers. Every node but a foreign object has a slot for one
diagnostic. An if-clause with an else-clause is a constructor of its own, so that the second branch is
always an else-clause; as a child it appears as the node `elseClause`.
-/

namespace StyleLang

inductive Node where
  | literal (mark : Mark) (value : Literal)
  | reference (mark : Mark) (name : String)
  | operation (mark : Mark) (op : Operator) (lhs rhs : Node)
  | declaration (mark : Mark) (property : String) (value : Node)
  | assignment (mark : Mark) (name : String) (value : Node)
  | ifClause (mark : Mark) (condition : Node) (body : List Node)
  | ifElse (mark : Mark) (condition : Node) (body : List Node) (elseMark : Mark)
      (elseBody : List Node)
  | elseClause (mark : Mark) (body : List Node)
  | rule (mark : Mark) (selectors : List Selector) (body : List Node)
  | sheet (mark : Mark) (members : List Node)
  /-- An object that is no node, known by its text only. -/
  | foreign (text : String)

instance : Inhabited Node := ⟨.foreign ""⟩

namespace Node

/-- The class name of a node, as it is shown in messages. -/
def kindName : Node → String
  | literal _ v => v.nodeName
  | reference _ _ => "VariableReference"
  | operation _ op _ _ => op.nodeName
  | declaration _ _ _ => "Declaration"
  | assignment _ _ _ => "VariableAssignment"
  | ifClause _ _ _ => "IfClause"
  | ifElse _ _ _ _ _ => "IfClause"
  | elseClause _ _ => "ElseClause"
  | rule _ _ _ => "Stylerule"
  | sheet _ _ => "Stylesheet"
  | foreign _ => "str"

/-- What the slot holds; a foreign object has none. -/
def mark : Node → Mark
  | literal m _ => m
  | reference m _ => m
  | operation m _ _ _ => m
  | declaration m _ _ => m
  | assignment m _ _ => m
  | ifClause m _ _ => m
  | ifElse m _ _ _ _ => m
  | elseClause m _ => m
  | rule m _ _ => m
  | sheet m _ => m
  | foreign _ => none

/-- The children in document order. -/
def children : Node → List Node
  | literal _ _ => []
  | reference _ _ => []
  | operation _ _ l r => [l, r]
  | declaration _ _ e => [e]
  | assignment _ _ e => [e]
  | ifClause _ c body => c :: body
  | ifElse _ c body em ebody => c :: body ++ [elseClause em ebody]
  | elseClause _ body => body
  | rule _ _ body => body
  | sheet _ members => members
  | foreign _ => []

/-- Literals, references and operations. -/
def isExpression : Node → Bool
  | literal _ _ => true
  | reference _ _ => true
  | operation _ _ _ _ => true
  | _ => false

/-- The value of a literal. -/
def literal? : Node → Option Literal
  | literal _ v => some v
  | _ => none

/-- The selectors of a rule; no other node has any. -/
def selectors : Node → List Selector
  | rule _ ss _ => ss
  | _ => []

def isRule : Node → Bool
  | rule _ _ _ => true
  | _ => false

end Node

/-- The root of a tree: global assignments and style rules in source order, if it is well placed. -/
structure Sheet where
  mark : Mark
  members : List Node

namespace Sheet

def node (s : Sheet) : Node := .sheet s.mark s.members

def rules (s : Sheet) : List Node := s.members.filter Node.isRule

end Sheet

end StyleLang
