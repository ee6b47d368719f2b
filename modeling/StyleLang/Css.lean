import StyleLang.Fault

/-!
# CSS text

A sheet that holds only rules, whose bodies hold only declarations of literals, is written as one
block per rule: a line with the selectors, one line per declaration, and a closing line.
-/

namespace StyleLang

/-- A text that stands so many times at the front of a line. -/
structure Indent where
  step : String
  times : Nat
  deriving DecidableEq

def Indent.text (i : Indent) : String := String.join (List.replicate i.times i.step)

/-- How blocks are laid out. -/
structure Layout where
  indent : Indent
  separator : String
  deriving DecidableEq

/-- Two spaces inside a block and an empty line between blocks. -/
def Layout.standard : Layout := ⟨⟨" ", 2⟩, "\n"⟩

/-- The text of a literal, unless its integer is too long to be written. -/
def Literal.css? : Literal → Option String
  | .pixel n => (Text.decimal? n).map (· ++ "px")
  | .percentage n => (Text.decimal? n).map (· ++ "%")
  | .color s => some s
  | .scalar n => Text.decimal? n
  | .bool true => some "TRUE"
  | .bool false => some "FALSE"

namespace Css

/-- The text of an expression that has been reduced to a literal. -/
def value : Node → Except Fault String
  | .literal _ v =>
    match v.css? with
    | some text => .ok text
    | none => .error .tooLong
  | other => .error (.unevaluated other)

/-- The line of a member of a rule with the given selectors. -/
def line (indent : Indent) (selectors : String) : Node → Except Fault String
  | .declaration _ p e => (value e).map fun v => indent.text ++ p ++ ": " ++ v ++ ";\n"
  | other => .error (.notDeclaration selectors other)

def lines (indent : Indent) (selectors : String) : List Node → Except Fault String
  | [] => .ok ""
  | n :: ns => do
    let first ← line indent selectors n
    let others ← lines indent selectors ns
    return first ++ others

def block (indent : Indent) : Node → Except Fault String
  | .rule _ ss body =>
    (lines indent (Selector.textAll ss) body).map fun inner =>
      Selector.textAll ss ++ " \x7b\n" ++ inner ++ "\x7d\n"
  | other => .error (.notRule other)

def blocks (indent : Indent) : List Node → Except Fault (List String)
  | [] => .ok []
  | n :: ns => do
    let first ← block indent n
    let others ← blocks indent ns
    return first :: others

end Css

/-- The text of a sheet. -/
def Sheet.css (layout : Layout) (s : Sheet) : Except Fault String :=
  (Css.blocks layout.indent s.members).map (String.intercalate layout.separator)

end StyleLang
