import StyleLang.Evaluation.Fold

/-!
# The algebra of folding

Sums and products may be turned round and regrouped, and a product spread over a sum or difference, anywhere
inside an expression. It folds to the same literal afterwards, or it folds neither before nor after. The laws
are shown of units and of bare integers apart; that an operation is defined is a matter of units alone. With
which fault an expression ends that does not fold depends on the order, and is not compared.
-/

namespace StyleLang.Evaluation

namespace Dimension

theorem operation?_comm (op : Operator) (d e : Dimension) :
    operation? op d e = operation? op e d := by
  cases op <;> cases d <;> cases e <;> rfl

theorem operation?_assoc (op : Operator) (d e f : Dimension) :
    ((operation? op d e).bind fun u => operation? op u f) =
      (operation? op e f).bind fun u => operation? op d u := by
  cases op <;> cases d <;> cases e <;> cases f <;> rfl

/-- What may be added may be scaled first; a factor that is no scalar leaves room for scalars only. -/
theorem operation?_distrib {op : Operator} (hop : op ≠ .multiply) (d e f : Dimension) :
    ((operation? op e f).bind fun u => operation? .multiply d u) =
      (operation? .multiply d e).bind fun u =>
        (operation? .multiply d f).bind fun v => operation? op u v := by
  cases op with
  | multiply => exact absurd rfl hop
  | add | subtract => cases d <;> cases e <;> cases f <;> rfl

end Dimension

theorem apply_comm {op : Operator} (hop : op ≠ .subtract) (i j : Int) :
    apply op i j = apply op j i := by
  cases op with
  | add => exact Int.add_comm i j
  | multiply => exact Int.mul_comm i j
  | subtract => exact absurd rfl hop

theorem apply_assoc {op : Operator} (hop : op ≠ .subtract) (i j k : Int) :
    apply op (apply op i j) k = apply op i (apply op j k) := by
  cases op with
  | add => exact Int.add_assoc i j k
  | multiply => exact Int.mul_assoc i j k
  | subtract => exact absurd rfl hop

theorem apply_distrib {op : Operator} (hop : op ≠ .multiply) (i j k : Int) :
    apply .multiply i (apply op j k) = apply op (apply .multiply i j) (apply .multiply i k) := by
  cases op with
  | add => exact Int.mul_add i j k
  | subtract => exact Int.mul_sub i j k
  | multiply => exact absurd rfl hop

/-- An operation on magnitudes, where an operand may have none. -/
def operate (op : Operator) (x y : Option (Dimension × Int)) : Option (Dimension × Int) :=
  x.bind fun a => y.bind fun b =>
    (Dimension.operation? op a.1 b.1).map fun u => (u, apply op a.2 b.2)

@[simp] theorem operate_none_left (op : Operator) (y : Option (Dimension × Int)) :
    operate op none y = none := rfl

@[simp] theorem operate_none_right (op : Operator) (x : Option (Dimension × Int)) :
    operate op x none = none := by
  cases x <;> rfl

theorem operate_comm {op : Operator} (hop : op ≠ .subtract) (x y : Option (Dimension × Int)) :
    operate op x y = operate op y x := by
  cases x with
  | none => rw [operate_none_left, operate_none_right]
  | some a =>
    cases y with
    | none => rw [operate_none_left, operate_none_right]
    | some b =>
      simp only [operate, Option.bind_some]
      rw [Dimension.operation?_comm op a.1 b.1, apply_comm hop a.2 b.2]

theorem operate_assoc {op : Operator} (hop : op ≠ .subtract) (x y z : Option (Dimension × Int)) :
    operate op (operate op x y) z = operate op x (operate op y z) := by
  match x, y, z with
  | none, _, _ | some _, none, _ | some _, some _, none => simp
  | some (d, i), some (e, j), some (f, k) =>
    calc
      operate op (operate op (some (d, i)) (some (e, j))) (some (f, k))
        = ((Dimension.operation? op d e).bind fun u => Dimension.operation? op u f).map
            fun u => (u, apply op (apply op i j) k) := by
          simp only [operate, Option.bind_some]
          cases Dimension.operation? op d e <;> rfl
      _ = ((Dimension.operation? op e f).bind fun u => Dimension.operation? op d u).map
            fun u => (u, apply op i (apply op j k)) := by
          rw [Dimension.operation?_assoc, apply_assoc hop]
      _ = operate op (some (d, i)) (operate op (some (e, j)) (some (f, k))) := by
          simp only [operate, Option.bind_some]
          cases Dimension.operation? op e f <;> rfl

theorem operate_distrib {op : Operator} (hop : op ≠ .multiply) (x y z : Option (Dimension × Int)) :
    operate .multiply x (operate op y z) =
      operate op (operate .multiply x y) (operate .multiply x z) := by
  match x, y, z with
  | none, _, _ | some _, none, _ | some _, some _, none => simp
  | some (d, i), some (e, j), some (f, k) =>
    calc
      operate .multiply (some (d, i)) (operate op (some (e, j)) (some (f, k)))
        = ((Dimension.operation? op e f).bind fun u => Dimension.operation? .multiply d u).map
            fun u => (u, apply .multiply i (apply op j k)) := by
          simp only [operate, Option.bind_some]
          cases Dimension.operation? op e f <;> rfl
      _ = ((Dimension.operation? .multiply d e).bind fun u =>
            (Dimension.operation? .multiply d f).bind fun v => Dimension.operation? op u v).map
            fun u => (u, apply op (apply .multiply i j) (apply .multiply i k)) := by
          rw [Dimension.operation?_distrib hop, apply_distrib hop]
      _ = operate op (operate .multiply (some (d, i)) (some (e, j)))
            (operate .multiply (some (d, i)) (some (f, k))) := by
          simp only [operate, Option.bind_some]
          cases Dimension.operation? .multiply d e with
          | none => rfl
          | some u => cases Dimension.operation? .multiply d f <;> rfl

variable {values : Values}

/-- The magnitude of what an expression folds to. -/
def measure? (values : Values) (e : Node) : Option (Dimension × Int) :=
  (fold values e).toOption.bind fun c => magnitude? c.value

theorem magnitude?_literal (d : Dimension) (n : Int) : magnitude? (d.literal n) = some (d, n) := by
  cases d <;> rfl

/-- Only the magnitudes of its operands count for an operation. -/
theorem toOption_fold_operation (values : Values) (m : Mark) (op : Operator) (l r : Node) :
    (fold values (.operation m op l r)).toOption =
      (operate op (measure? values l) (measure? values r)).map fun x => ⟨none, x.1.literal x.2⟩ := by
  cases hl : fold values l with
  | error f => simp [fold, measure?, hl, Except.toOption]
  | ok a =>
    cases hr : fold values r with
    | error f => simp [fold, measure?, hl, hr, Except.toOption]
    | ok b =>
      simp only [fold, measure?, hl, hr, Except.toOption, Option.bind_some, Constant.node, combine,
        combine?]
      cases magnitude? a.value with
      | none => rfl
      | some x =>
        cases magnitude? b.value with
        | none => rfl
        | some y =>
          simp only [operate, Option.bind_some]
          cases Dimension.operation? op x.1 y.1 <;> rfl

theorem measure?_congr {e e' : Node} (h : (fold values e).toOption = (fold values e').toOption) :
    measure? values e = measure? values e' := by
  rw [measure?, h, measure?]

theorem measure?_operation (m : Mark) (op : Operator) (l r : Node) :
    measure? values (.operation m op l r) = operate op (measure? values l) (measure? values r) := by
  rw [measure?, toOption_fold_operation]
  cases operate op (measure? values l) (measure? values r) with
  | none => rfl
  | some x => simp [magnitude?_literal]

/-- The second expression is the first after one use of a law of arithmetic at its root. What the slots of
the operations hold does not matter. -/
inductive Rearranged : Node → Node → Prop
  | turned {op m m' a b} (hop : op ≠ .subtract) :
      Rearranged (.operation m op a b) (.operation m' op b a)
  | regrouped {op m₁ m₂ m₁' m₂' a b c} (hop : op ≠ .subtract) :
      Rearranged (.operation m₁ op (.operation m₂ op a b) c)
        (.operation m₁' op a (.operation m₂' op b c))
  | spread {op m₁ m₂ m₁' m₂' m₃' a b c} (hop : op ≠ .multiply) :
      Rearranged (.operation m₁ .multiply a (.operation m₂ op b c))
        (.operation m₁' op (.operation m₂' .multiply a b) (.operation m₃' .multiply a c))

theorem Rearranged.toOption_fold {e e' : Node} (h : Rearranged e e') (values : Values) :
    (fold values e).toOption = (fold values e').toOption := by
  cases h with
  | turned hop =>
    rw [toOption_fold_operation, toOption_fold_operation, operate_comm hop]
  | regrouped hop =>
    rw [toOption_fold_operation, toOption_fold_operation, measure?_operation, measure?_operation,
      operate_assoc hop]
  | spread hop =>
    rw [toOption_fold_operation, toOption_fold_operation, measure?_operation, measure?_operation,
      measure?_operation, operate_distrib hop]

/-- An expression with a hole in it. -/
inductive Context where
  | hole
  | left (mark : Mark) (op : Operator) (inner : Context) (rhs : Node)
  | right (mark : Mark) (op : Operator) (lhs : Node) (inner : Context)

def Context.fill : Context → Node → Node
  | hole, e => e
  | left m op inner r, e => .operation m op (inner.fill e) r
  | right m op l inner, e => .operation m op l (inner.fill e)

/-- What is around an expression sees only what it folds to. -/
theorem Context.toOption_fold (around : Context) {e e' : Node}
    (h : (fold values e).toOption = (fold values e').toOption) :
    (fold values (around.fill e)).toOption = (fold values (around.fill e')).toOption := by
  induction around with
  | hole => exact h
  | left m op inner r ih =>
    rw [fill, fill, toOption_fold_operation, toOption_fold_operation, measure?_congr ih]
  | right m op l inner ih =>
    rw [fill, fill, toOption_fold_operation, toOption_fold_operation, measure?_congr ih]

/-- A part of an expression may be rearranged by the laws of arithmetic: the whole folds to the same literal,
with the same slot, or does not fold in either form. -/
theorem fold_rearranged (values : Values) (around : Context) {e e' : Node} (h : Rearranged e e') :
    (∃ c, fold values (around.fill e) = .ok c ∧ fold values (around.fill e') = .ok c) ∨
      ∃ f f', fold values (around.fill e) = .error f ∧ fold values (around.fill e') = .error f' := by
  have hsame := around.toOption_fold (h.toOption_fold values)
  cases hfold : fold values (around.fill e) with
  | ok c =>
    cases hfold' : fold values (around.fill e') with
    | ok c' =>
      rw [hfold, hfold'] at hsame
      obtain rfl : c = c' := Option.some.inj hsame
      exact Or.inl ⟨c, rfl, rfl⟩
    | error f' =>
      rw [hfold, hfold'] at hsame
      cases hsame
  | error f =>
    cases hfold' : fold values (around.fill e') with
    | ok c' =>
      rw [hfold, hfold'] at hsame
      cases hsame
    | error f' => exact Or.inr ⟨f, f', rfl, rfl⟩

/-- `1 - X * (2 + Y)`, where `X` stands for a number and `Y` for pixels, still comes to pixels when the product
is spread over the sum. Where `Y` stands for a percentage the product cannot be formed, and neither can the
sum of the two products. -/
theorem fold_rearranged_spread :
    let values : Literal → Values := fun v => ⟨.snapshot, [[("X", ⟨none, .scalar 3⟩), ("Y", ⟨none, v⟩)]]⟩
    let around : Context := .right none .subtract (.literal none (.scalar 1)) .hole
    let x : Node := .reference none "X"
    let y : Node := .reference none "Y"
    let two : Node := .literal none (.scalar 2)
    let e : Node := .operation none .multiply x (.operation none .add two y)
    let e' : Node := .operation none .add (.operation none .multiply x two) (.operation none .multiply x y)
    Rearranged e e' ∧ fold (values (.pixel 5)) (around.fill e') = .ok ⟨none, .pixel (-20)⟩ ∧
      ∃ f, fold (values (.percentage 5)) (around.fill e') = .error f := by
  intro values around x y two e e'
  have h : Rearranged e e' := .spread nofun
  have hpixels : fold (values (.pixel 5)) (around.fill e) = .ok ⟨none, .pixel (-20)⟩ := rfl
  refine ⟨h, ?_, ?_⟩
  · rcases fold_rearranged (values (.pixel 5)) around h with ⟨c, hc, hc'⟩ | ⟨f, f', hf, -⟩
    · rw [hpixels] at hc
      rw [hc', ← hc]
    · rw [hpixels] at hf
      cases hf
  · rcases fold_rearranged (values (.percentage 5)) around h with ⟨c, hc, -⟩ | ⟨f, f', -, hf'⟩
    · cases hc
    · exact ⟨f', hf'⟩

end StyleLang.Evaluation
