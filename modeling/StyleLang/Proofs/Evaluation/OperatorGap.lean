import StyleLang.Proofs.Evaluation.Arithmetic
import StyleLang.Proofs.Evaluation.Soundness
import StyleLang.Proofs.Tree.Report

/-!
# Operators that fold but have no type

Inference and folding go by two tables of operators. Where the names in an expression have the types of
what they stand for, the tables differ in one place: a pixel next to a scalar has a sum and a difference,
but no type. What inference marks in an expression without a type is compared here too: never a node and
one below it. Names whose type is unknown are left out.
-/

namespace StyleLang

theorem Node.not_filledWith {n : Node} (h : n.hasErrors = false) (p : Position) (d : Diagnostic) :
    ¬ n.FilledWith p d := by
  rintro ⟨m, hm, hd⟩
  cases (mark_at? h hm).symm.trans hd

theorem Node.not_filledWith_leaf {n : Node} (hn : n.children = []) {p : Position} (hp : p ≠ [])
    (d : Diagnostic) : ¬ n.FilledWith p d := by
  cases p with
  | nil => exact absurd rfl hp
  | cons k p => simp [filledWith_cons, hn]

namespace Typing

theorem operationResult_eq_some {op : Operator} {a b : Option ValueType} {sel : Option String}
    {u : ValueType} :
    operationResult op a b sel = some u ↔ ∃ s t, a = some s ∧ b = some t ∧ OperationType op s t u := by
  cases a with
  | none => simp [operationResult]
  | some s =>
    cases b with
    | none => simp [operationResult]
    | some t =>
      have hiff : OperationType op s t u ↔ checkOperands op s t sel = none ∧ operationType op s t = u :=
        (operationType_iff sel).symm
      cases hc : checkOperands op s t sel <;> simp [operationResult, hiff, hc]

/-- An operation earns a diagnostic only where both of its operands have a type, and it has none. -/
theorem operationFault_eq_some {op : Operator} {a b : Option ValueType} {sel : Option String}
    {d : Diagnostic} (h : operationFault op a b sel = some d) :
    (∃ s, a = some s) ∧ (∃ t, b = some t) ∧ operationResult op a b sel = none := by
  cases a with
  | none => cases h
  | some s =>
    cases b with
    | none => cases h
    | some t =>
      have hd : checkOperands op s t sel = some d := h
      exact ⟨⟨s, rfl⟩, ⟨t, rfl⟩, by simp only [operationResult, hd]⟩

variable {types : Types} {sel : Option String}

/-- In an expression with a type inference marks nothing. -/
theorem infer_tree_of_known {e : Node} {u : ValueType}
    (h : (infer types sel e).result = .ok (some u)) : (infer types sel e).tree = e := by
  cases e with
  | literal => rfl
  | reference m x =>
    cases hx : types.resolve x with
    | none => simp [infer, hx] at h
    | some t => simp only [infer, hx]
  | operation m op l r =>
    have hv := (infer_ok_iff types sel _).mp ⟨_, h⟩
    rw [Node.isValue, Bool.and_eq_true] at hv
    obtain ⟨a, ha⟩ := infer_ok hv.1 types sel
    obtain ⟨b, hb⟩ := infer_ok hv.2 types sel
    rw [infer_operation ha hb] at h ⊢
    have hresult : operationResult op a b sel = some u := Except.ok.inj h
    have hfault : operationFault op a b sel = none := by
      cases hd : operationFault op a b sel with
      | none => rfl
      | some d => cases hresult.symm.trans (operationFault_eq_some hd).2.2
    obtain ⟨s, t, rfl, rfl, -⟩ := operationResult_eq_some.mp hresult
    rw [hfault, Mark.fill_none, infer_tree_of_known ha, infer_tree_of_known hb]
  | declaration | assignment | ifClause | ifElse | elseClause | rule | sheet | foreign => cases h

/-- Of a node and one below it inference marks one at most. -/
theorem infer_marks_apart {e : Node} (hv : e.isValue = true) (hempty : e.hasErrors = false)
    {p r : Position} {d d' : Diagnostic} (hr : r ≠ [])
    (hp : (infer types sel e).tree.FilledWith p d) :
    ¬ (infer types sel e).tree.FilledWith (p ++ r) d' := by
  have hne : p ++ r ≠ [] := List.append_ne_nil_of_right_ne_nil p hr
  cases e with
  | literal m v => exact Node.not_filledWith_leaf rfl hne d'
  | reference m x =>
    refine Node.not_filledWith_leaf ?_ hne d'
    simp only [infer]
    split <;> rfl
  | operation m op l r' =>
    rw [Node.isValue, Bool.and_eq_true] at hv
    obtain ⟨a, ha⟩ := infer_ok hv.1 types sel
    obtain ⟨b, hb⟩ := infer_ok hv.2 types sel
    have hl : l.hasErrors = false := Node.hasErrors_child hempty (by simp [Node.children])
    have hr' : r'.hasErrors = false := Node.hasErrors_child hempty (by simp [Node.children])
    rw [infer_operation ha hb] at hp ⊢
    intro hbelow
    cases p with
    | nil =>
      -- The operation itself is marked: its operands have types, so nothing in them is.
      obtain rfl : m = none := (Node.hasErrors_eq_false_iff.mp hempty).1
      have hd : operationFault op a b sel = some d := Node.filledWith_nil.mp hp
      obtain ⟨⟨s, rfl⟩, ⟨t, rfl⟩, -⟩ := operationFault_eq_some hd
      rw [infer_tree_of_known ha, infer_tree_of_known hb] at hbelow
      cases r with
      | nil => exact hr rfl
      | cons k q =>
        obtain ⟨c, hc, hq⟩ := Node.filledWith_cons.mp hbelow
        rcases Evaluation.operand_eq hc with ⟨-, rfl⟩ | ⟨-, rfl⟩
        · exact Node.not_filledWith hl q d' hq
        · exact Node.not_filledWith hr' q d' hq
    | cons k q =>
      obtain ⟨c, hc, hq⟩ := Node.filledWith_cons.mp hp
      obtain ⟨c', hc', hq'⟩ := Node.filledWith_cons.mp hbelow
      obtain rfl := Option.some.inj (hc.symm.trans hc')
      rcases Evaluation.operand_eq hc with ⟨-, rfl⟩ | ⟨-, rfl⟩
      · exact infer_marks_apart hv.1 hl hr hq hq'
      · exact infer_marks_apart hv.2 hr' hr hq hq'
  | declaration | assignment | ifClause | ifElse | elseClause | rule | sheet | foreign =>
    simp [Node.isValue] at hv

end Typing

namespace Evaluation

open Typing (Types OperationType infer)

/-- A pixel is added to a scalar or subtracted from it, or the other way about. -/
inductive MixesUnits : Operator → ValueType → ValueType → Prop
  | pixelScalar {op} (hop : op ≠ .multiply) : MixesUnits op .pixel .scalar
  | scalarPixel {op} (hop : op ≠ .multiply) : MixesUnits op .scalar .pixel

theorem MixesUnits.untyped {op : Operator} {s t : ValueType} (h : MixesUnits op s t) (u : ValueType) :
    ¬ OperationType op s t u := by
  intro hu
  cases h with
  | pixelScalar hop | scalarPixel hop =>
    cases hu
    exact hop rfl

/-- The tables of operators differ where units are mixed, and nowhere else. -/
theorem operationType_iff_unit {op : Operator} {s t u : ValueType} :
    OperationType op s t u ↔ OperationUnit op s t u ∧ ¬ MixesUnits op s t := by
  constructor
  · intro h
    exact ⟨.typed h, fun hmix => hmix.untyped u h⟩
  · rintro ⟨h, hmix⟩
    cases h with
    | typed h => exact h
    | pixelScalar hop => exact absurd (.pixelScalar hop) hmix
    | scalarPixel hop => exact absurd (.scalarPixel hop) hmix

/-- Somewhere in the expression units are mixed. -/
def MixesWithin (values : Values) (e : Node) : Prop :=
  ∃ p m op l r a b, e.at? p = some (.operation m op l r) ∧ fold values l = .ok a ∧
    fold values r = .ok b ∧ MixesUnits op a.value.type b.value.type

variable {types : Types} {values : Values}

theorem not_mixesWithin_leaf {e : Node} (hleaf : e.children = [])
    (hop : ∀ m op l r, e ≠ .operation m op l r) : ¬ MixesWithin values e := by
  rintro ⟨p, m, op, l, r, a, b, hp, -⟩
  cases p with
  | nil => exact hop m op l r (Option.some.inj hp)
  | cons k p => simp [Node.at?, hleaf] at hp

theorem mixesWithin_operation {m : Mark} {op : Operator} {l r : Node} {a b : Constant}
    (hl : fold values l = .ok a) (hr : fold values r = .ok b) :
    MixesWithin values (.operation m op l r) ↔
      MixesWithin values l ∨ MixesWithin values r ∨ MixesUnits op a.value.type b.value.type := by
  constructor
  · rintro ⟨p, m', op', l', r', a', b', hp, ha, hb, hmix⟩
    cases p with
    | nil =>
      cases Option.some.inj hp
      obtain rfl := Except.ok.inj (hl.symm.trans ha)
      obtain rfl := Except.ok.inj (hr.symm.trans hb)
      exact Or.inr (Or.inr hmix)
    | cons k p =>
      obtain ⟨c, hc, hat⟩ := Option.bind_eq_some_iff.mp hp
      rcases operand_eq hc with ⟨-, rfl⟩ | ⟨-, rfl⟩
      · exact Or.inl ⟨p, m', op', l', r', a', b', hat, ha, hb, hmix⟩
      · exact Or.inr (Or.inl ⟨p, m', op', l', r', a', b', hat, ha, hb, hmix⟩)
  · rintro (⟨p, h⟩ | ⟨p, h⟩ | hmix)
    · exact ⟨0 :: p, h⟩
    · exact ⟨1 :: p, h⟩
    · exact ⟨[], m, op, l, r, a, b, rfl, hl, hr, hmix⟩

/-- The chains bind the same names, each to a constant and to its type. -/
def SameNames (types : Types) (values : Values) : Prop :=
  ∀ x, types.resolve x = (values.resolve x).map fun c => some c.value.type

theorem SameNames.typed (h : SameNames types values) : Typed types values := by
  intro x t hx
  rw [h x] at hx
  obtain ⟨c, hc, ht⟩ := Option.map_eq_some_iff.mp hx
  exact ⟨c, hc, ht.symm⟩

/-- An expression has a type exactly if it folds and mixes no units, and what it folds to is of that
type. -/
theorem infer_known_iff (h : SameNames types values) (sel : Option String) {e : Node}
    (hv : e.isValue = true) {t : ValueType} :
    (infer types sel e).result = .ok (some t) ↔
      ∃ c, fold values e = .ok c ∧ ¬ MixesWithin values e ∧ c.value.type = t := by
  cases e with
  | literal m v =>
    have hmix : ¬ MixesWithin values (.literal m v) := not_mixesWithin_leaf rfl (by simp)
    simp [infer, fold, hmix]
  | reference m x =>
    have hmix : ¬ MixesWithin values (.reference m x) := not_mixesWithin_leaf rfl (by simp)
    have hx := h x
    cases hc : values.resolve x <;> simp [infer, fold, hx, hc, hmix]
  | operation m op l r =>
    rw [Node.isValue, Bool.and_eq_true] at hv
    obtain ⟨a, ha⟩ := Typing.infer_ok hv.1 types sel
    obtain ⟨b, hb⟩ := Typing.infer_ok hv.2 types sel
    have hleft := fun s => infer_known_iff h sel hv.1 (t := s)
    have hright := fun s => infer_known_iff h sel hv.2 (t := s)
    simp only [ha, Except.ok.injEq] at hleft
    simp only [hb, Except.ok.injEq] at hright
    rw [Typing.infer_operation ha hb, Except.ok.injEq, Typing.operationResult_eq_some]
    constructor
    · rintro ⟨s, s', rfl, rfl, htype⟩
      obtain ⟨left, hl, hlmix, rfl⟩ := (hleft s).mp rfl
      obtain ⟨right, hr, hrmix, rfl⟩ := (hright s').mp rfl
      obtain ⟨hunit, hmix⟩ := operationType_iff_unit.mp htype
      obtain ⟨v, hcombines, rfl⟩ := hunit.combines
      refine ⟨⟨none, v⟩, fold_operation_ok.mpr ⟨left, right, v, hl, hr, combine?_iff.mpr hcombines, rfl⟩,
        ?_, rfl⟩
      rw [mixesWithin_operation hl hr]
      rintro (hmix' | hmix' | hmix')
      · exact hlmix hmix'
      · exact hrmix hmix'
      · exact hmix hmix'
    · rintro ⟨c, hc, hmix, rfl⟩
      obtain ⟨left, right, v, hl, hr, hcombine, rfl⟩ := fold_operation_ok.mp hc
      rw [mixesWithin_operation hl hr, not_or, not_or] at hmix
      refine ⟨_, _, (hleft _).mpr ⟨left, hl, hmix.1, rfl⟩, (hright _).mpr ⟨right, hr, hmix.2.1, rfl⟩, ?_⟩
      exact operationType_iff_unit.mpr ⟨(combine?_iff.mp hcombine).operationUnit, hmix.2.2⟩
  | declaration | assignment | ifClause | ifElse | elseClause | rule | sheet | foreign =>
    simp [Node.isValue] at hv

theorem exists_marked (h : SameNames types values) (sel : Option String) {e : Node}
    (hv : e.isValue = true) (hunknown : (infer types sel e).result = .ok none) :
    ∃ p d, (infer types sel e).tree.FilledWith p d := by
  by_contra hnone
  have hclean : (infer types sel e).tree.hasErrors = false := by
    refine Node.hasErrors_of_at? fun p n hn => ?_
    cases hm : n.mark with
    | none => rfl
    | some d => exact absurd ⟨p, d, n, hn, hm⟩ hnone
  obtain ⟨c, -, hc⟩ := fold_of_infer h.typed hv hclean
  cases hunknown.symm.trans hc

/-- An expression whose slots are empty has a type exactly if it folds and mixes no units; what it folds
to is then of that type. Any other is marked, and where a node of it is, none below that node is. -/
theorem infer_iff_fold (h : SameNames types values) (sel : Option String) {e : Node}
    (hv : e.isValue = true) (hempty : e.hasErrors = false) :
    (∀ t, (infer types sel e).result = .ok (some t) ↔
      ∃ c, fold values e = .ok c ∧ ¬ MixesWithin values e ∧ c.value.type = t) ∧
    ((∃ t, (infer types sel e).result = .ok (some t)) ∨
      (infer types sel e).result = .ok none ∧ (∃ p d, (infer types sel e).tree.FilledWith p d) ∧
      ∀ p r d d', r ≠ [] → (infer types sel e).tree.FilledWith p d →
        ¬ (infer types sel e).tree.FilledWith (p ++ r) d') := by
  refine ⟨fun t => infer_known_iff h sel hv, ?_⟩
  obtain ⟨result, hresult⟩ := Typing.infer_ok hv types sel
  cases result with
  | some t => exact Or.inl ⟨t, hresult⟩
  | none =>
    exact Or.inr ⟨hresult, exists_marked h sel hv hresult, fun p r d d' hr hp =>
      Typing.infer_marks_apart hv hempty hr hp⟩

/-- Of `X`, which stands for five pixels where `#fff` is shadowed, and the scalar `Y`: `Y * X` has the
type pixel, `X - Y` folds but is marked. -/
theorem infer_iff_fold_shadowed :
    let types : Types := ⟨.lexical, [[("X", some .pixel)], [("X", some .color), ("Y", some .scalar)]]⟩
    let values : Values := ⟨.snapshot, [[("X", ⟨none, .pixel 5⟩), ("Y", ⟨none, .scalar 2⟩)],
      [("X", ⟨none, .color "#fff"⟩), ("Y", ⟨none, .scalar 2⟩)]]⟩
    let product : Node := .operation none .multiply (.reference none "Y") (.reference none "X")
    let difference : Node := .operation none .subtract (.reference none "X") (.reference none "Y")
    SameNames types values ∧ (infer types none product).result = .ok (some .pixel) ∧
      fold values difference = .ok ⟨none, .pixel 3⟩ ∧
      ∃ p d, (infer types none difference).tree.FilledWith p d := by
  intro types values product difference
  have hsame : SameNames types values := by
    intro x
    by_cases hx : x = "X"
    · subst hx
      rfl
    by_cases hy : x = "Y"
    · subst hy
      rfl
    simp [types, values, Chain.resolve, Chain.visible, List.lookup_cons, beq_false_of_ne hx,
      beq_false_of_ne hy]
  have hproduct : (infer types none product).result = .ok (some .pixel) := by rfl
  have hunknown : (infer types none difference).result = .ok none := by rfl
  have hempty : difference.hasErrors = false := by
    simp [difference, Node.hasErrors, Node.walk, Node.visit, Node.children, Node.mark]
  refine ⟨hsame, hproduct, rfl, ?_⟩
  rcases (infer_iff_fold hsame none (e := difference) rfl hempty).2 with ⟨t, ht⟩ | ⟨-, hmarked, -⟩
  · cases hunknown.symm.trans ht
  · exact hmarked

end Evaluation

end StyleLang
