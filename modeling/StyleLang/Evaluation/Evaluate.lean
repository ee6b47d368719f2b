import StyleLang.Evaluation.Fold
import StyleLang.Passage

/-!
# Evaluation

Evaluation folds the value of every declaration, binds and drops assignments, and puts the branch
that its condition selects in the place of an if-clause. A clause whose condition is no boolean
stands as it is. A declaration is changed in its old place as soon as it is folded; a rule's body,
and the members of the sheet, are replaced only when they are complete.
-/

namespace StyleLang

namespace Evaluation

/-- A pass over a body: the body with folded declarations in their old places, and what it comes
to. -/
abbrev Flattened := Passage Constant (List Node) (List Node)

/-- Folds the value of a name and binds it, which may be a fault. -/
def bindValue {τ : Type} (tree : τ) (values : Values) (x : String) (e : Node) :
    Passage Constant τ Unit :=
  match fold values e with
  | .error f => .stop tree values f
  | .ok c => .bind tree values x c

mutual

/-- What a member of a body comes to. -/
def flattenMember (values : Values) : Node → Passage Constant Node (List Node)
  | .declaration m p e =>
    match fold values e with
    | .error f => .stop (.declaration m p e) values f
    | .ok c => .done (.declaration m p c.node) values [.declaration m p c.node]
  | .assignment m x e => (bindValue (.assignment m x e) values x e).mapResult fun _ => []
  | .ifClause m c body =>
    match fold values c with
    | .error f => .stop (.ifClause m c body) values f
    | .ok ⟨_, .bool true⟩ =>
      (Passage.inScope values fun opened => flatten opened body).mapTree (.ifClause m c)
    | .ok ⟨_, .bool false⟩ =>
      Passage.inScope values fun opened => .done (.ifClause m c body) opened []
    | .ok _ => .done (.ifClause m c body) values [.ifClause m c body]
  | .ifElse m c body em ebody =>
    match fold values c with
    | .error f => .stop (.ifElse m c body em ebody) values f
    | .ok ⟨_, .bool true⟩ =>
      (Passage.inScope values fun opened => flatten opened body).mapTree
        fun body' => .ifElse m c body' em ebody
    | .ok ⟨_, .bool false⟩ =>
      (Passage.inScope values fun opened => flatten opened ebody).mapTree
        fun ebody' => .ifElse m c body em ebody'
    | .ok _ => .done (.ifElse m c body em ebody) values [.ifElse m c body em ebody]
  | other => .stop other values (.bodyMember other)

def flatten (values : Values) : List Node → Flattened
  | [] => .done [] values []
  | n :: ns =>
    .andThen List.cons ns (flattenMember values n) fun values' here =>
      (flatten values' ns).mapResult (here ++ ·)

end

/-- What a member of the sheet comes to. A rule is changed as a whole or, after a fault, only in its
declarations. -/
def evaluateMember (values : Values) : Node → Passage Constant Node (List Node)
  | .assignment m x e => (bindValue (.assignment m x e) values x e).mapResult fun _ => []
  | .rule m ss body =>
    let flat := Passage.inScope values fun opened => flatten opened body
    match flat.result with
    | .error f => ⟨.rule m ss flat.tree, flat.chain, flat.calls, .error f⟩
    | .ok body' => ⟨.rule m ss body', flat.chain, flat.calls, .ok [.rule m ss body']⟩
  | other => .stop other values (.sheetMember other)

def evaluateMembers (values : Values) : List Node → Passage Constant (List Node) (List Node)
  | [] => .done [] values []
  | n :: ns =>
    .andThen List.cons ns (evaluateMember values n) fun values' here =>
      (evaluateMembers values' ns).mapResult (here ++ ·)

end Evaluation

/-- Evaluates a sheet on a chain of its own. -/
def Sheet.evaluate (s : Sheet) : Passage Constant Sheet Unit :=
  let members := Passage.inScope (Chain.empty .snapshot) fun values =>
    Evaluation.evaluateMembers values s.members
  match members.result with
  | .error f => ⟨⟨s.mark, members.tree⟩, members.chain, members.calls, .error f⟩
  | .ok done => ⟨⟨s.mark, done⟩, members.chain, members.calls, .ok ()⟩

end StyleLang
