import StyleLang.Node.Walk
import StyleLang.Passage
import StyleLang.Typing.Rules

/-!
# Checking

Checking infers the type of every expression and fills the slot of every node that breaks a rule,
unless the slot is filled already. A broken rule does not end it; a misplaced object does. One scope
is opened for the sheet, and one for every rule, if-body and else-body.
-/

namespace StyleLang

namespace Typing

/-- Names with the types they are bound to; a type may be unknown. -/
abbrev Types := Chain (Option ValueType)

/-- What inference leaves of an expression, and its type if it has one. -/
structure Inferred where
  tree : Node
  result : Except Fault (Option ValueType)

/-- The type of an expression. An operand without a type leaves the operation without one. -/
def infer (types : Types) (selector : Option String) : Node → Inferred
  | .literal m v => ⟨.literal m v, .ok (some v.type)⟩
  | .reference m x =>
    match types.resolve x with
    | some t => ⟨.reference m x, .ok t⟩
    | none => ⟨.reference (m.fill (some (undefinedVariable x selector))) x, .ok none⟩
  | .operation m op l r =>
    let left := infer types selector l
    match left.result with
    | .error f => ⟨.operation m op left.tree r, .error f⟩
    | .ok leftType =>
      let right := infer types selector r
      match right.result with
      | .error f => ⟨.operation m op left.tree right.tree, .error f⟩
      | .ok rightType =>
        match leftType, rightType with
        | some s, some t =>
          match checkOperands op s t selector with
          | none => ⟨.operation m op left.tree right.tree, .ok (some (operationType op s t))⟩
          | some d => ⟨.operation (m.fill (some d)) op left.tree right.tree, .ok none⟩
        | _, _ => ⟨.operation m op left.tree right.tree, .ok none⟩
  | other => ⟨other, .error (.expression other)⟩

/-- A pass that only checks. -/
abbrev Checked (τ : Type) := Passage (Option ValueType) τ Unit

/-- Binds the name to the type, known or not, so that a later use is not reported again. -/
def checkAssignment (types : Types) (selector : Option String) (m : Mark) (x : String) (e : Node) :
    Checked Node :=
  let value := infer types selector e
  match value.result with
  | .error f => .stop (.assignment m x value.tree) types f
  | .ok t => .bind (.assignment m x value.tree) types x t

mutual

/-- Checks one member of a body in a rule with the given selectors. -/
def checkMember (table : PropertyTable) (selector : String) (types : Types) :
    Node → Checked Node
  | .declaration m p e =>
    let value := infer types (some selector) e
    match value.result with
    | .error f => .stop (.declaration m p value.tree) types f
    | .ok t =>
      .done (.declaration (m.fill (checkProperty table p t (some selector))) p value.tree) types ()
  | .assignment m x e => checkAssignment types (some selector) m x e
  | .ifClause m c body =>
    let condition := infer types (some selector) c
    match condition.result with
    | .error f => .stop (.ifClause m condition.tree body) types f
    | .ok t =>
      (Passage.inScope types fun opened => checkBody table selector opened body).mapTree
        (.ifClause (m.fill (checkCondition t (some selector))) condition.tree)
  | .ifElse m c body em ebody =>
    let condition := infer types (some selector) c
    match condition.result with
    | .error f => .stop (.ifElse m condition.tree body em ebody) types f
    | .ok t =>
      .andThen
        (fun body' ebody' =>
          .ifElse (m.fill (checkCondition t (some selector))) condition.tree body' em ebody')
        ebody
        (.inScope types fun opened => checkBody table selector opened body)
        fun types' _ => .inScope types' fun opened => checkBody table selector opened ebody
  | other => .stop other types (.bodyMember other)

def checkBody (table : PropertyTable) (selector : String) (types : Types) :
    List Node → Checked (List Node)
  | [] => .done [] types ()
  | n :: ns =>
    .andThen List.cons ns (checkMember table selector types n)
      fun types' _ => checkBody table selector types' ns

end

def checkSheetMember (table : PropertyTable) (types : Types) : Node → Checked Node
  | .assignment m x e => checkAssignment types none m x e
  | .rule m ss body =>
    (Passage.inScope types fun opened =>
      checkBody table (Selector.textAll ss) opened body).mapTree (.rule m ss)
  | other => .stop other types (.sheetMember other)

def checkMembers (table : PropertyTable) (types : Types) : List Node → Checked (List Node)
  | [] => .done [] types ()
  | n :: ns =>
    .andThen List.cons ns (checkSheetMember table types n)
      fun types' _ => checkMembers table types' ns

end Typing

/-- Checks a sheet against a property table, on a chain of its own. -/
def Sheet.check (table : PropertyTable) (s : Sheet) : Typing.Checked Sheet :=
  (Passage.inScope (Chain.empty .lexical) fun types =>
    Typing.checkMembers table types s.members).mapTree (Sheet.mk s.mark)

end StyleLang
