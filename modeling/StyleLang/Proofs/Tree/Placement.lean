import StyleLang.Proofs.Tree.Position

/-!
# Well-placed trees

A tree is well placed when the sheet holds assignments and rules, a body declarations, assignments and
if-clauses, and an expression literals, references and operations. Neither names nor types matter here.
-/

namespace StyleLang

namespace Node

/-- An expression with nothing but expressions in it. -/
def isValue : Node → Bool
  | literal _ _ => true
  | reference _ _ => true
  | operation _ _ l r => l.isValue && r.isValue
  | _ => false

mutual

def isBodyMember : Node → Bool
  | declaration _ _ e => e.isValue
  | assignment _ _ e => e.isValue
  | ifClause _ c body => c.isValue && areBodyMembers body
  | ifElse _ c body _ ebody => c.isValue && areBodyMembers body && areBodyMembers ebody
  | _ => false

def areBodyMembers : List Node → Bool
  | [] => true
  | n :: ns => n.isBodyMember && areBodyMembers ns

end

def isSheetMember : Node → Bool
  | assignment _ _ e => e.isValue
  | rule _ _ body => areBodyMembers body
  | _ => false

theorem areBodyMembers_iff {ns : List Node} :
    areBodyMembers ns = true ↔ ∀ n ∈ ns, n.isBodyMember = true := by
  induction ns with
  | nil => simp [areBodyMembers]
  | cons n ns ih => simp [areBodyMembers, ih]

end Node

def Sheet.isWellPlaced (s : Sheet) : Bool := s.members.all Node.isSheetMember

end StyleLang
