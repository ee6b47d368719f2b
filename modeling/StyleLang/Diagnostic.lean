/-!
# Diagnostics

A diagnostic is one finding about one node. It names the rule that was broken and, when the node
stands in a style rule, the selectors of that style rule.
-/

namespace StyleLang

/-- The part of the error taxonomy a finding belongs to. -/
inductive Category where
  | type
  | operand
  | unresolved
  deriving DecidableEq

namespace Category

def name : Category → String
  | type => "type"
  | operand => "operand"
  | unresolved => "unresolved"

/-- The category as a heading. -/
def heading : Category → String
  | type => "TYPE"
  | operand => "OPERAND"
  | unresolved => "UNRESOLVED"

/-- The order of a summary. -/
def all : List Category := [type, operand, unresolved]

def ofName? (s : String) : Option Category := all.find? (·.name = s)

end Category

structure Diagnostic where
  rule : String
  category : Category
  message : String
  selector : Option String
  deriving DecidableEq

namespace Diagnostic

/-- The part of the text that says where; an empty selector says nothing. -/
def location (d : Diagnostic) : String :=
  match d.selector with
  | none => ""
  | some s => if s = "" then "" else " [rule=" ++ s ++ "]"

def text (d : Diagnostic) : String :=
  d.category.heading ++ " ERROR" ++ d.location ++ ": " ++ d.message

end Diagnostic

/-- The slot of a node: at most one diagnostic. -/
abbrev Mark := Option Diagnostic

/-- Puts a diagnostic, if there is one, into a slot that is empty; a filled slot stays. -/
def Mark.fill (m : Mark) (d : Option Diagnostic) : Mark := m.orElse fun _ => d

@[simp] theorem Mark.fill_none (m : Mark) : Mark.fill m none = m := by
  cases m <;> rfl

@[simp] theorem Mark.fill_some (d : Diagnostic) (e : Option Diagnostic) :
    Mark.fill (some d) e = some d := rfl

@[simp] theorem Mark.none_fill (e : Option Diagnostic) : Mark.fill none e = e := rfl

end StyleLang
