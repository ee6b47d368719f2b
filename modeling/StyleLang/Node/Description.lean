import StyleLang.Node
import StyleLang.Text.Decimal
import StyleLang.Text.Quoted

/-!
# Descriptions

The description of a node shows its class and its fields, slots apart. There is none if an integer in
it is too long to be written.
-/

namespace StyleLang

open Text

namespace Literal

/-- The value as a description shows it. -/
def valueText? : Literal → Option String
  | pixel n => decimal? n
  | percentage n => decimal? n
  | color s => some (quoted s)
  | scalar n => decimal? n
  | bool true => some "True"
  | bool false => some "False"

def describe? (v : Literal) : Option String :=
  v.valueText?.map fun t => v.nodeName ++ "(value=" ++ t ++ ")"

end Literal

/-- Items between brackets. -/
def listing (items : List String) : String :=
  "[" ++ String.intercalate ", " items ++ "]"

def Selector.describe (s : Selector) : String :=
  "Selector(kind=" ++ quoted s.kind ++ ", value=" ++ quoted s.value ++ ")"

namespace Node

mutual

def describe? : Node → Option String
  | literal _ v => v.describe?
  | reference _ x => some ("VariableReference(name=" ++ quoted x ++ ")")
  | operation _ op l r => do
    let left ← l.describe?
    let right ← r.describe?
    some (op.nodeName ++ "(lhs=" ++ left ++ ", rhs=" ++ right ++ ")")
  | declaration _ p e => do
    let value ← e.describe?
    some ("Declaration(property=" ++ quoted p ++ ", expression=" ++ value ++ ")")
  | assignment _ x e => do
    let value ← e.describe?
    some ("VariableAssignment(name=" ++ quoted x ++ ", expression=" ++ value ++ ")")
  | ifClause _ c body => do
    let condition ← c.describe?
    let members ← describeAll? body
    some ("IfClause(condition=" ++ condition ++ ", body=" ++ listing members
      ++ ", else_clause=None)")
  | ifElse _ c body _ ebody => do
    let condition ← c.describe?
    let members ← describeAll? body
    let others ← describeAll? ebody
    some ("IfClause(condition=" ++ condition ++ ", body=" ++ listing members
      ++ ", else_clause=ElseClause(body=" ++ listing others ++ "))")
  | elseClause _ body => do
    let members ← describeAll? body
    some ("ElseClause(body=" ++ listing members ++ ")")
  | rule _ ss body => do
    let members ← describeAll? body
    some ("Stylerule(selectors=" ++ listing (ss.map Selector.describe) ++ ", body="
      ++ listing members ++ ")")
  | sheet _ ms => do
    let members ← describeAll? ms
    some ("Stylesheet(members=" ++ listing members ++ ")")
  | foreign t => some (quoted t)

def describeAll? : List Node → Option (List String)
  | [] => some []
  | n :: ns => do
    let item ← n.describe?
    let items ← describeAll? ns
    some (item :: items)

end

end Node

end StyleLang
