import StyleLang.Node

/-!
# Equality of trees

Equality of nodes is decidable. Two trees are the same when they are equal with all slots emptied.
-/

namespace StyleLang.Node

mutual

/-- Compares two trees, slots included. -/
def beq : Node → Node → Bool
  | literal m v, literal n w => m = n && v = w
  | reference m x, reference n y => m = n && x = y
  | operation m op l r, operation n op' l' r' => m = n && op = op' && beq l l' && beq r r'
  | declaration m p e, declaration n q f => m = n && p = q && beq e f
  | assignment m x e, assignment n y f => m = n && x = y && beq e f
  | ifClause m c b, ifClause n c' b' => m = n && beq c c' && beqAll b b'
  | ifElse m c b em e, ifElse n c' b' en e' =>
    m = n && beq c c' && beqAll b b' && em = en && beqAll e e'
  | elseClause m b, elseClause n b' => m = n && beqAll b b'
  | rule m ss b, rule n ss' b' => m = n && ss = ss' && beqAll b b'
  | sheet m b, sheet n b' => m = n && beqAll b b'
  | foreign s, foreign t => s = t
  | _, _ => false

def beqAll : List Node → List Node → Bool
  | [], [] => true
  | n :: ns, m :: ms => beq n m && beqAll ns ms
  | _, _ => false

end

mutual

theorem beq_iff (a b : Node) : beq a b = true ↔ a = b := by
  cases a with
  | literal => cases b <;> simp [beq]
  | reference => cases b <;> simp [beq]
  | foreign => cases b <;> simp [beq]
  | operation _ _ l r => cases b <;> simp [beq, beq_iff l, beq_iff r, and_assoc]
  | declaration _ _ e => cases b <;> simp [beq, beq_iff e, and_assoc]
  | assignment _ _ e => cases b <;> simp [beq, beq_iff e, and_assoc]
  | ifClause _ c body => cases b <;> simp [beq, beq_iff c, beqAll_iff body, and_assoc]
  | ifElse _ c body _ ebody =>
    cases b <;> simp [beq, beq_iff c, beqAll_iff body, beqAll_iff ebody, and_assoc]
  | elseClause _ body => cases b <;> simp [beq, beqAll_iff body]
  | rule _ _ body => cases b <;> simp [beq, beqAll_iff body, and_assoc]
  | sheet _ body => cases b <;> simp [beq, beqAll_iff body]

theorem beqAll_iff (as bs : List Node) : beqAll as bs = true ↔ as = bs := by
  cases as with
  | nil => cases bs <;> simp [beqAll]
  | cons a as => cases bs <;> simp [beqAll, beq_iff a, beqAll_iff as]

end

instance : DecidableEq Node := fun a b => decidable_of_iff _ (beq_iff a b)

mutual

/-- The tree with all slots emptied. -/
def unmarked : Node → Node
  | literal _ v => literal none v
  | reference _ x => reference none x
  | operation _ op l r => operation none op l.unmarked r.unmarked
  | declaration _ p e => declaration none p e.unmarked
  | assignment _ x e => assignment none x e.unmarked
  | ifClause _ c body => ifClause none c.unmarked (unmarkedAll body)
  | ifElse _ c body _ ebody => ifElse none c.unmarked (unmarkedAll body) none (unmarkedAll ebody)
  | elseClause _ body => elseClause none (unmarkedAll body)
  | rule _ ss body => rule none ss (unmarkedAll body)
  | sheet _ members => sheet none (unmarkedAll members)
  | foreign t => foreign t

def unmarkedAll : List Node → List Node
  | [] => []
  | n :: ns => n.unmarked :: unmarkedAll ns

end

/-- Equality up to slots. -/
def same (a b : Node) : Bool := a.unmarked = b.unmarked

end StyleLang.Node

namespace StyleLang

deriving instance DecidableEq for Sheet

end StyleLang
