import StyleLang.Proofs.Tree.Position
import StyleLang.Typing.Rules

/-!
# Scoping and typing by position

Scopes and types said of positions in the whole tree, with no chain and no order of visits: which
assignments count at a position, which type an expression has there, and which diagnostic the node
earns. The operand rules are a relation of their own, so that nothing here is computed by checking.
-/

namespace StyleLang

namespace Node

open Position

def Assigns (root : Node) (x : String) (q : Position) : Prop :=
  ∃ m e, root.at? q = some (.assignment m x e)

/-- At `p` the assignment to `x` at `q` counts: it ends before `p` and is a direct member of a block
that encloses `p`. An assignment does not end before its own expression. -/
structure Visible (root : Node) (x : String) (q p : Position) : Prop where
  assigns : root.Assigns x q
  endsBefore : EndsBefore q p
  block : ∃ b k, q = b ++ [k] ∧ root.DirectMember b k ∧ root.Encloses b p

/-- Of the assignments that count, the one after all the others. -/
structure LastVisible (root : Node) (x : String) (q p : Position) : Prop where
  visible : root.Visible x q p
  last : ∀ q', root.Visible x q' p → q' = q ∨ EndsBefore q' q

theorem LastVisible.unique {root : Node} {x : String} {q q' p : Position}
    (h : root.LastVisible x q p) (h' : root.LastVisible x q' p) : q = q' := by
  rcases h.last q' h'.visible with rfl | hlt
  · rfl
  · rcases h'.last q h.visible with rfl | hgt
    · rfl
    · exact absurd hgt hlt.asymm

/-- One step further down, what counted still counts, and so do the members of the block entered that
stand before the one stepped to. -/
theorem visible_snoc {root : Node} {x : String} {q p : Position} {k : Nat} :
    root.Visible x q (p ++ [k]) ↔
      root.Visible x q p ∨
        ∃ i, q = p ++ [i] ∧ i < k ∧ root.DirectMember p i ∧ root.DirectMember p k ∧
          root.Assigns x q := by
  constructor
  · intro h
    obtain ⟨ha, hb, c, i, rfl, hi, j, r, hp, hj⟩ := h
    rcases List.eq_nil_or_concat r with rfl | ⟨r', k', rfl⟩
    · obtain ⟨rfl, rfl⟩ := List.append_singleton_inj.mp hp
      exact Or.inr ⟨i, rfl, hb.lt_of_siblings, hi, hj, ha⟩
    · have hp' : p ++ [k] = (c ++ j :: r') ++ [k'] := by simp [hp]
      obtain ⟨rfl, rfl⟩ := List.append_singleton_inj.mp hp'
      rw [List.append_assoc, List.cons_append] at hb
      have hlt : i < j := hb.lt_of_siblings
      exact Or.inl ⟨ha, endsBefore_sibling c [] r' hlt, c, i, rfl, hi, j, r', rfl, hj⟩
  · intro h
    rcases h with ⟨ha, hb, c, i, rfl, hi, j, r, rfl, hj⟩ | ⟨i, rfl, hlt, hi, hk, ha⟩
    · exact ⟨ha, hb.append_right [k], c, i, rfl, hi, j, r ++ [k], by simp, hj⟩
    · exact ⟨ha, endsBefore_sibling p [] [] hlt, p, i, rfl, hi, k, [], rfl, hk⟩

/-- A child that is no member of a block sees what its parent sees. -/
theorem visible_child {root : Node} {p : Position} {k : Nat}
    (h : ∀ i, i < k → root.DirectMember p i → ¬ root.DirectMember p k) (x : String) (q : Position) :
    root.Visible x q (p ++ [k]) ↔ root.Visible x q p := by
  rw [visible_snoc]
  constructor
  · intro h
    rcases h with hv | ⟨i, -, hlt, hi, hk, -⟩
    · exact hv
    · exact absurd hk (h i hlt hi)
  · exact Or.inl

/-- The next member of a block sees in addition the member before it, if that is an assignment. -/
theorem visible_next {root : Node} {p : Position} {k : Nat} (hk : root.DirectMember p k)
    (hk' : root.DirectMember p (k + 1)) (x : String) (q : Position) :
    root.Visible x q (p ++ [k + 1]) ↔
      root.Visible x q (p ++ [k]) ∨ (q = p ++ [k] ∧ root.Assigns x q) := by
  rw [visible_snoc, visible_snoc]
  constructor
  · intro h
    rcases h with hv | ⟨i, rfl, hlt, hi, -, ha⟩
    · exact Or.inl (Or.inl hv)
    · rcases Nat.lt_succ_iff_lt_or_eq.mp hlt with hlt | rfl
      · exact Or.inl (Or.inr ⟨i, rfl, hlt, hi, hk, ha⟩)
      · exact Or.inr ⟨rfl, ha⟩
  · intro h
    rcases h with (hv | ⟨i, rfl, hlt, hi, -, ha⟩) | ⟨rfl, ha⟩
    · exact Or.inl hv
    · exact Or.inr ⟨i, rfl, by omega, hi, hk', ha⟩
    · exact Or.inr ⟨k, rfl, by omega, hk, hk', ha⟩

/-- The selectors of the rule that a position stands in; a rule does not stand in itself. -/
def selectorAt (root : Node) : Position → Option String
  | k :: _ :: _ =>
    match root.children[k]? with
    | some (.rule _ ss _) => some (Selector.textAll ss)
    | _ => none
  | _ => none

/-- The condition of an if-clause. -/
def condition? : Node → Option Node
  | ifClause _ c _ => some c
  | ifElse _ c _ _ _ => some c
  | _ => none

end Node

namespace Typing

/-- The diagnostic that the types of its operands earn an operation. Colors come before booleans, and
both before what the operator asks for. -/
inductive OperandFault (op : Operator) (s t : ValueType) (selector : Option String) :
    Diagnostic → Prop
  | color (h : s = .color ∨ t = .color) : OperandFault op s t selector
      ⟨"color_in_operation", .operand, "Colors cannot be used in operations", selector⟩
  | bool (hs : s ≠ .color) (ht : t ≠ .color) (h : s = .bool ∨ t = .bool) :
      OperandFault op s t selector
      ⟨"bool_in_operation", .operand, "Booleans cannot be used in operations", selector⟩
  | noScalar (hs : s ≠ .color) (ht : t ≠ .color) (hs' : s ≠ .bool) (ht' : t ≠ .bool)
      (hop : op = .multiply) (h : s ≠ .scalar) (h' : t ≠ .scalar) : OperandFault op s t selector
      ⟨"scalar_required", .operand, "At least one operand of * must be a scalar", selector⟩
  | mismatch (hs : s ≠ .color) (ht : t ≠ .color) (hs' : s ≠ .bool) (ht' : t ≠ .bool)
      (hop : op ≠ .multiply) (h : s ≠ t) : OperandFault op s t selector
      ⟨"operand_mismatch", .operand, "Operands of + and - must be of the same type (got "
        ++ s.name ++ " " ++ op.symbol ++ " " ++ t.name ++ ")", selector⟩

/-- The types that an operation takes, and the type that it then has: a sum or difference is of the
type of both operands, a product of the type of the factor beside the scalar. -/
inductive OperationType : Operator → ValueType → ValueType → ValueType → Prop
  | sum {op t} (hop : op ≠ .multiply) (h : t ≠ .color) (h' : t ≠ .bool) : OperationType op t t t
  | scaledRight {t} (h : t ≠ .color) (h' : t ≠ .bool) : OperationType .multiply .scalar t t
  | scaledLeft {t} (h : t ≠ .color) (h' : t ≠ .bool) : OperationType .multiply t .scalar t

theorem checkOperands_iff {op : Operator} {s t : ValueType} {selector : Option String}
    {d : Diagnostic} :
    checkOperands op s t selector = some d ↔ OperandFault op s t selector d := by
  constructor
  · intro h
    unfold checkOperands at h
    split at h
    · rename_i hc
      cases h
      exact .color hc
    · rename_i hc
      rw [not_or] at hc
      split at h
      · rename_i hb
        cases h
        exact .bool hc.1 hc.2 hb
      · rename_i hb
        rw [not_or] at hb
        split at h
        · rename_i hop
          split at h
          · cases h
          · rename_i hs
            rw [not_or] at hs
            cases h
            exact .noScalar hc.1 hc.2 hb.1 hb.2 hop hs.1 hs.2
        · rename_i hop
          split at h
          · cases h
          · rename_i hst
            cases h
            exact .mismatch hc.1 hc.2 hb.1 hb.2 hop hst
  · intro h
    cases h <;> simp_all [checkOperands]

theorem operationType_iff {op : Operator} {s t u : ValueType} (selector : Option String) :
    checkOperands op s t selector = none ∧ operationType op s t = u ↔ OperationType op s t u := by
  constructor
  · intro h
    obtain ⟨h, rfl⟩ := h
    cases op <;> cases s <;> cases t <;> simp [checkOperands] at h <;>
      first
      | exact .sum (by decide) (by decide) (by decide)
      | exact .scaledRight (by decide) (by decide)
      | exact .scaledLeft (by decide) (by decide)
  · intro h
    cases h with
    | sum hop h h' => simp [checkOperands, operationType, hop, h, h']
    | scaledRight h h' => simp [checkOperands, operationType, h, h']
    | scaledLeft h h' =>
      refine ⟨by simp [checkOperands, h, h'], ?_⟩
      cases s <;> rfl

/-- Operands that no operation takes are those that earn a diagnostic. -/
theorem operandFault_iff {op : Operator} {s t : ValueType} (selector : Option String) :
    (∃ d, OperandFault op s t selector d) ↔ ∀ u, ¬ OperationType op s t u := by
  simp only [← checkOperands_iff, ← operationType_iff selector]
  cases checkOperands op s t selector <;> simp

/-- The type of the expression at a position; `none` is an unknown type. -/
inductive HasType (root : Node) : Position → Option ValueType → Prop
  | literal {p m v} (h : root.at? p = some (.literal m v)) : HasType root p (some v.type)
  | unbound {p m x} (h : root.at? p = some (.reference m x)) (hv : ∀ q, ¬ root.Visible x q p) :
      HasType root p none
  | bound {p m x q t} (h : root.at? p = some (.reference m x)) (hq : root.LastVisible x q p)
      (ht : HasType root (q ++ [0]) t) : HasType root p t
  | unknown {p m op l r s t} (h : root.at? p = some (.operation m op l r))
      (hl : HasType root (p ++ [0]) s) (hr : HasType root (p ++ [1]) t)
      (hst : s = none ∨ t = none) : HasType root p none
  | illTyped {p m op l r s t} (h : root.at? p = some (.operation m op l r))
      (hl : HasType root (p ++ [0]) (some s)) (hr : HasType root (p ++ [1]) (some t))
      (hst : ∀ u, ¬ OperationType op s t u) : HasType root p none
  | operation {p m op l r s t u} (h : root.at? p = some (.operation m op l r))
      (hl : HasType root (p ++ [0]) (some s)) (hr : HasType root (p ++ [1]) (some t))
      (hst : OperationType op s t u) : HasType root p (some u)

/-- The diagnostic that the node at a position earns; most nodes earn none. -/
inductive Earns (table : PropertyTable) (root : Node) : Position → Diagnostic → Prop
  | undefined {p m x} (h : root.at? p = some (.reference m x)) (hv : ∀ q, ¬ root.Visible x q p) :
      Earns table root p ⟨"undefined_variable", .unresolved, "Variable " ++ x ++ " is not defined",
        root.selectorAt p⟩
  | operands {p m op l r s t d} (h : root.at? p = some (.operation m op l r))
      (hl : HasType root (p ++ [0]) (some s)) (hr : HasType root (p ++ [1]) (some t))
      (hd : OperandFault op s t (root.selectorAt p) d) : Earns table root p d
  | condition {p n t} (h : root.at? p = some n) (hc : n.condition?.isSome)
      (ht : HasType root (p ++ [0]) t) (hb : t ≠ some .bool) :
      Earns table root p ⟨"condition_not_bool", .type, "If-clause condition must be a boolean",
        root.selectorAt p⟩
  | property {p m name e t required} (h : root.at? p = some (.declaration m name e))
      (hr : table.required name = some required) (ht : HasType root (p ++ [0]) t)
      (hne : t ≠ some required) :
      Earns table root p ⟨"property_type", .type, "Only " ++ required.name
        ++ " values can be assigned to property '" ++ name ++ "'", root.selectorAt p⟩

end Typing

end StyleLang
