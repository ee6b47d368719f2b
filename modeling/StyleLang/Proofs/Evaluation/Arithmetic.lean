import StyleLang.Proofs.Css.Plain
import StyleLang.Proofs.Evaluation.Faithful

/-!
# Arithmetic with units

Folding an expression is arithmetic on bare integers, and beside it the finding of a unit: an expression
folds exactly if it has a unit, and what it folds to has that unit and that number. An expression without
a unit ends at the node without one that a walk leaves first. What is bound to a name is taken as it is;
where it came from is not asked.
-/

namespace StyleLang

theorem Literal.describe?_eq_none_iff {v : Literal} : v.describe? = none ↔ v.IsTooLong := by
  rw [← css?_eq_none_iff]
  cases v with
  | pixel | percentage | scalar | color => simp [describe?, valueText?, css?]
  | bool b => cases b <;> simp [describe?, valueText?, css?]

namespace Position

/-- A walk that leaves every node after its children leaves `q` before `p`: it stands below it, or ends
before it. -/
def LeftBefore (q p : Position) : Prop := (∃ r, r ≠ [] ∧ q = p ++ r) ∨ EndsBefore q p

theorem not_leftBefore_nil (p : Position) : ¬ LeftBefore [] p := by
  rintro (⟨r, hr, h⟩ | ⟨b, i, j, r, s, h, -⟩)
  · exact hr (List.append_eq_nil_iff.mp h.symm).2
  · exact List.cons_ne_nil i r (List.append_eq_nil_iff.mp h.symm).2

theorem leftBefore_cons {k j : Nat} {q p : Position} (h : LeftBefore (k :: q) (j :: p)) :
    k < j ∨ (k = j ∧ LeftBefore q p) := by
  rcases h with ⟨r, hr, h⟩ | ⟨b, i, i', r, s, hq, hp, hlt⟩
  · rw [List.cons_append, List.cons.injEq] at h
    exact Or.inr ⟨h.1, Or.inl ⟨r, hr, h.2⟩⟩
  · cases b with
    | nil =>
      rw [List.nil_append, List.cons.injEq] at hq hp
      obtain ⟨rfl, -⟩ := hq
      obtain ⟨rfl, -⟩ := hp
      exact Or.inl hlt
    | cons i₀ b =>
      rw [List.cons_append, List.cons.injEq] at hq hp
      obtain ⟨rfl, rfl⟩ := hq
      obtain ⟨rfl, rfl⟩ := hp
      exact Or.inr ⟨rfl, Or.inr (endsBefore_sibling b r s hlt)⟩

theorem LeftBefore.cons {q p : Position} (h : LeftBefore q p) (k : Nat) :
    LeftBefore (k :: q) (k :: p) := by
  rcases h with ⟨r, hr, rfl⟩ | ⟨b, i, j, r, s, rfl, rfl, hlt⟩
  · exact Or.inl ⟨r, hr, rfl⟩
  · exact Or.inr (endsBefore_sibling (k :: b) r s hlt)

theorem leftBefore_total (q p : Position) : q = p ∨ LeftBefore q p ∨ LeftBefore p q := by
  induction q generalizing p with
  | nil =>
    cases p with
    | nil => exact Or.inl rfl
    | cons j p => exact Or.inr (Or.inr (Or.inl ⟨j :: p, List.cons_ne_nil j p, rfl⟩))
  | cons k q ih =>
    cases p with
    | nil => exact Or.inr (Or.inl (Or.inl ⟨k :: q, List.cons_ne_nil k q, rfl⟩))
    | cons j p =>
      rcases Nat.lt_trichotomy k j with hlt | rfl | hlt
      · exact Or.inr (Or.inl (Or.inr (endsBefore_sibling [] q p hlt)))
      · rcases ih p with rfl | h | h
        · exact Or.inl rfl
        · exact Or.inr (Or.inl (h.cons k))
        · exact Or.inr (Or.inr (h.cons k))
      · exact Or.inr (Or.inr (Or.inr (endsBefore_sibling [] p q hlt)))

end Position

namespace Evaluation

/-- The unit of an operation whose operands have the given ones: the type that such operands give it, and
pixels for a sum or difference of a pixel and a scalar. -/
inductive OperationUnit : Operator → ValueType → ValueType → ValueType → Prop
  | typed {op s t u} (h : Typing.OperationType op s t u) : OperationUnit op s t u
  | pixelScalar {op} (hop : op ≠ .multiply) : OperationUnit op .pixel .scalar .pixel
  | scalarPixel {op} (hop : op ≠ .multiply) : OperationUnit op .scalar .pixel .pixel

/-- The unit of an expression; that of a color or a boolean is its type. -/
inductive HasUnit (values : Values) : Node → ValueType → Prop
  | literal {m v} : HasUnit values (.literal m v) v.type
  | reference {m x c} (hx : values.resolve x = some c) :
      HasUnit values (.reference m x) c.value.type
  | operation {m op l r s t u} (hl : HasUnit values l s) (hr : HasUnit values r t)
      (h : OperationUnit op s t u) : HasUnit values (.operation m op l r) u

/-- The number that an expression comes to when its operations are done on bare integers. -/
inductive HasNumber (values : Values) : Node → Int → Prop
  | literal {m v n} (h : v.number? = some n) : HasNumber values (.literal m v) n
  | reference {m x c n} (hx : values.resolve x = some c) (h : c.value.number? = some n) :
      HasNumber values (.reference m x) n
  | sum {m l r a b} (hl : HasNumber values l a) (hr : HasNumber values r b) :
      HasNumber values (.operation m .add l r) (a + b)
  | difference {m l r a b} (hl : HasNumber values l a) (hr : HasNumber values r b) :
      HasNumber values (.operation m .subtract l r) (a - b)
  | product {m l r a b} (hl : HasNumber values l a) (hr : HasNumber values r b) :
      HasNumber values (.operation m .multiply l r) (a * b)

/-- Every name in the expression is bound. -/
def NamesBound (values : Values) (e : Node) : Prop :=
  ∀ p m x, e.at? p = some (.reference m x) → ∃ c, values.resolve x = some c

/-- The type of the literals of a unit. -/
def Dimension.type : Dimension → ValueType
  | pixel => .pixel
  | percentage => .percentage
  | scalar => .scalar

@[simp] theorem type_literal (d : Dimension) (a : Int) : (d.literal a).type = d.type := by
  cases d <;> rfl

@[simp] theorem number?_literal (d : Dimension) (a : Int) : (d.literal a).number? = some a := by
  cases d <;> rfl

theorem Dimension.type_ne (d : Dimension) : d.type ≠ .color ∧ d.type ≠ .bool := by
  cases d <;> exact ⟨nofun, nofun⟩

theorem exists_dimension {t : ValueType} (hc : t ≠ .color) (hb : t ≠ .bool) :
    ∃ d : Dimension, t = d.type := by
  cases t with
  | pixel => exact ⟨.pixel, rfl⟩
  | percentage => exact ⟨.percentage, rfl⟩
  | scalar => exact ⟨.scalar, rfl⟩
  | color => exact absurd rfl hc
  | bool => exact absurd rfl hb

theorem exists_literal {v : Literal} {d : Dimension} (h : v.type = d.type) :
    ∃ a, v = d.literal a := by
  cases v <;> cases d <;> cases h <;> exact ⟨_, rfl⟩

theorem Combines.operationUnit {op : Operator} {v w u : Literal} (h : Combines op v w u) :
    OperationUnit op v.type w.type u.type := by
  cases h with
  | @sum op d a b hop =>
    simp only [type_literal]
    exact .typed (.sum hop d.type_ne.1 d.type_ne.2)
  | pixelScalar hop => exact .pixelScalar hop
  | scalarPixel hop => exact .scalarPixel hop
  | @scaledRight d a b =>
    simp only [type_literal]
    exact .typed (.scaledRight d.type_ne.1 d.type_ne.2)
  | @scaledLeft d a b =>
    simp only [type_literal]
    exact .typed (.scaledLeft d.type_ne.1 d.type_ne.2)

/-- Literals whose units go together combine. -/
theorem OperationUnit.combines {op : Operator} {v w : Literal} {t : ValueType}
    (h : OperationUnit op v.type w.type t) : ∃ u, Combines op v w u ∧ u.type = t := by
  generalize hv : v.type = s₁ at h
  generalize hw : w.type = s₂ at h
  cases h with
  | typed h =>
    cases h with
    | sum hop hc hb =>
      obtain ⟨d, rfl⟩ := exists_dimension hc hb
      obtain ⟨a, rfl⟩ := exists_literal hv
      obtain ⟨b, rfl⟩ := exists_literal hw
      exact ⟨_, .sum hop, type_literal d _⟩
    | scaledRight hc hb =>
      obtain ⟨d, rfl⟩ := exists_dimension hc hb
      obtain ⟨a, rfl⟩ := exists_literal (d := .scalar) hv
      obtain ⟨b, rfl⟩ := exists_literal hw
      exact ⟨_, .scaledRight, type_literal d _⟩
    | scaledLeft hc hb =>
      obtain ⟨d, rfl⟩ := exists_dimension hc hb
      obtain ⟨a, rfl⟩ := exists_literal hv
      obtain ⟨b, rfl⟩ := exists_literal (d := .scalar) hw
      exact ⟨_, .scaledLeft, type_literal d _⟩
  | pixelScalar hop =>
    obtain ⟨a, rfl⟩ := exists_literal (d := .pixel) hv
    obtain ⟨b, rfl⟩ := exists_literal (d := .scalar) hw
    exact ⟨_, .pixelScalar hop, rfl⟩
  | scalarPixel hop =>
    obtain ⟨a, rfl⟩ := exists_literal (d := .scalar) hv
    obtain ⟨b, rfl⟩ := exists_literal (d := .pixel) hw
    exact ⟨_, .scalarPixel hop, rfl⟩

theorem Combines.numbers {op : Operator} {v w u : Literal} (h : Combines op v w u) :
    ∃ a b, v.number? = some a ∧ w.number? = some b ∧ u.number? = some (apply op a b) := by
  cases h with
  | sum => exact ⟨_, _, number?_literal _ _, number?_literal _ _, number?_literal _ _⟩
  | scaledRight => exact ⟨_, _, rfl, number?_literal _ _, number?_literal _ _⟩
  | scaledLeft => exact ⟨_, _, number?_literal _ _, rfl, number?_literal _ _⟩
  | pixelScalar | scalarPixel => exact ⟨_, _, rfl, rfl, rfl⟩

variable {values : Values}

theorem fold_of_hasUnit {e : Node} {u : ValueType} (h : HasUnit values e u) :
    ∃ c, fold values e = .ok c ∧ c.value.type = u := by
  induction h with
  | literal => exact ⟨_, rfl, rfl⟩
  | reference hx => exact ⟨_, by simp only [fold, hx], rfl⟩
  | operation hl hr h ihl ihr =>
    obtain ⟨a, hfoldl, rfl⟩ := ihl
    obtain ⟨b, hfoldr, rfl⟩ := ihr
    obtain ⟨v, hv, rfl⟩ := h.combines
    exact ⟨⟨none, v⟩, fold_operation_ok.mpr ⟨a, b, v, hfoldl, hfoldr, combine?_iff.mpr hv, rfl⟩, rfl⟩

theorem hasUnit_of_fold {e : Node} {c : Constant} (h : fold values e = .ok c) :
    HasUnit values e c.value.type := by
  cases e with
  | literal m v =>
    cases h
    exact .literal
  | reference m x =>
    cases hx : values.resolve x with
    | none => simp [fold, hx] at h
    | some c' =>
      simp only [fold, hx] at h
      cases h
      exact .reference hx
  | operation m op l r =>
    obtain ⟨a, b, v, hl, hr, hv, rfl⟩ := fold_operation_ok.mp h
    exact .operation (hasUnit_of_fold hl) (hasUnit_of_fold hr) (combine?_iff.mp hv).operationUnit
  | declaration | assignment | ifClause | ifElse | elseClause | rule | sheet | foreign => cases h

theorem operand_eq {m : Mark} {op : Operator} {l r c : Node} {k : Nat}
    (h : (Node.operation m op l r).children[k]? = some c) : (k = 0 ∧ c = l) ∨ (k = 1 ∧ c = r) := by
  match k with
  | 0 => exact Or.inl ⟨rfl, (Option.some.inj h).symm⟩
  | 1 => exact Or.inr ⟨rfl, (Option.some.inj h).symm⟩
  | k + 2 => simp [Node.children] at h

/-- An expression with a unit has no part without one. -/
theorem HasUnit.at? {e : Node} {u : ValueType} (h : HasUnit values e u) {p : Position} {n : Node}
    (hn : e.at? p = some n) : ∃ t, HasUnit values n t := by
  cases p with
  | nil =>
    obtain rfl := Option.some.inj hn
    exact ⟨u, h⟩
  | cons k p =>
    obtain ⟨c, hc, hn⟩ := Option.bind_eq_some_iff.mp hn
    cases h with
    | literal | reference => simp [Node.children] at hc
    | operation hl hr =>
      rcases operand_eq hc with ⟨rfl, rfl⟩ | ⟨rfl, rfl⟩
      · exact hl.at? hn
      · exact hr.at? hn

theorem HasUnit.namesBound {e : Node} {u : ValueType} (h : HasUnit values e u) :
    NamesBound values e := by
  intro p m x hn
  obtain ⟨t, ht⟩ := h.at? hn
  cases ht with
  | reference hx => exact ⟨_, hx⟩

/-- The number of what an expression folds to is the one that its bare integers come to. -/
theorem number?_of_fold {e : Node} {c : Constant} (h : fold values e = .ok c) (n : Int) :
    c.value.number? = some n ↔ HasNumber values e n := by
  cases e with
  | literal m v =>
    cases h
    exact ⟨.literal, fun h => by cases h; assumption⟩
  | reference m x =>
    cases hx : values.resolve x with
    | none => simp [fold, hx] at h
    | some c' =>
      simp only [fold, hx] at h
      cases h
      refine ⟨.reference hx, fun h => ?_⟩
      cases h with
      | reference hx' h =>
        obtain rfl := Option.some.inj (hx.symm.trans hx')
        exact h
  | operation m op l r =>
    obtain ⟨a, b, v, hl, hr, hv, rfl⟩ := fold_operation_ok.mp h
    obtain ⟨i, j, hi, hj, hij⟩ := (combine?_iff.mp hv).numbers
    have hleft := (number?_of_fold hl i).mp hi
    have hright := (number?_of_fold hr j).mp hj
    have hself : HasNumber values (.operation m op l r) (apply op i j) := by
      cases op with
      | add => exact .sum hleft hright
      | subtract => exact .difference hleft hright
      | multiply => exact .product hleft hright
    constructor
    · intro hn
      obtain rfl := Option.some.inj (hij.symm.trans hn)
      exact hself
    · intro hn
      have hunique : ∀ {i' j'}, HasNumber values l i' → HasNumber values r j' → i' = i ∧ j' = j := by
        intro i' j' hi' hj'
        exact ⟨Option.some.inj (((number?_of_fold hl i').mpr hi').symm.trans hi),
          Option.some.inj (((number?_of_fold hr j').mpr hj').symm.trans hj)⟩
      cases hn with
      | sum hi' hj' | difference hi' hj' | product hi' hj' =>
        obtain ⟨rfl, rfl⟩ := hunique hi' hj'
        exact hij
  | declaration | assignment | ifClause | ifElse | elseClause | rule | sheet | foreign => cases h

/-- The fault of a node without a unit whose children have one: the name is not bound, or the units of
what the operands fold to do not go together. -/
inductive Stuck (values : Values) : Node → Fault → Prop
  | unbound {m x} (hx : values.resolve x = none) : Stuck values (.reference m x) (.undefinedVariable x)
  | operands {m op l r a b} (hl : fold values l = .ok a) (hr : fold values r = .ok b)
      (h : ∀ u, ¬ OperationUnit op a.value.type b.value.type u) :
      Stuck values (.operation m op l r) (.operands op a.node b.node)

/-- At `p` stands the node without a unit that a walk which leaves nodes after their children leaves
first. -/
structure FirstStuck (values : Values) (e : Node) (p : Position) (n : Node) : Prop where
  at_eq : e.at? p = some n
  unitless : ∀ u, ¬ HasUnit values n u
  first : ∀ q n', e.at? q = some n' → q.LeftBefore p → ∃ u, HasUnit values n' u

/-- There is one such node at most. -/
theorem FirstStuck.unique {e n n' : Node} {p p' : Position} (h : FirstStuck values e p n)
    (h' : FirstStuck values e p' n') : p = p' ∧ n = n' := by
  rcases Position.leftBefore_total p p' with rfl | hlt | hlt
  · exact ⟨rfl, Option.some.inj (h.at_eq.symm.trans h'.at_eq)⟩
  · obtain ⟨u, hu⟩ := h'.first p n h.at_eq hlt
    exact absurd hu (h.unitless u)
  · obtain ⟨u, hu⟩ := h.first p' n' h'.at_eq hlt
    exact absurd hu (h'.unitless u)

theorem firstStuck_self {e : Node} (h : ∀ u, ¬ HasUnit values e u)
    (hbelow : ∀ (k : Nat) (c : Node), e.children[k]? = some c → ∃ u, HasUnit values c u) :
    FirstStuck values e [] e := by
  refine ⟨rfl, h, fun q n' hq hlt => ?_⟩
  cases q with
  | nil => exact absurd hlt (Position.not_leftBefore_nil [])
  | cons k q =>
    obtain ⟨c, hc, hq⟩ := Option.bind_eq_some_iff.mp hq
    obtain ⟨u, hu⟩ := hbelow k c hc
    exact hu.at? hq

theorem FirstStuck.of_child {e c n : Node} {k : Nat} {p : Position} (hc : e.children[k]? = some c)
    (hbefore : ∀ (j : Nat) (c' : Node), j < k → e.children[j]? = some c' → ∃ u, HasUnit values c' u)
    (h : FirstStuck values c p n) : FirstStuck values e (k :: p) n := by
  refine ⟨Option.bind_eq_some_iff.mpr ⟨c, hc, h.at_eq⟩, h.unitless, fun q n' hq hlt => ?_⟩
  cases q with
  | nil => exact absurd hlt (Position.not_leftBefore_nil _)
  | cons j q =>
    obtain ⟨c', hc', hq⟩ := Option.bind_eq_some_iff.mp hq
    rcases Position.leftBefore_cons hlt with hj | ⟨rfl, hlt'⟩
    · obtain ⟨u, hu⟩ := hbefore j c' hj hc'
      exact hu.at? hq
    · obtain rfl := Option.some.inj (hc.symm.trans hc')
      exact h.first q n' hq hlt'

theorem unitless_of_fold {e : Node} {f : Fault} (h : fold values e = .error f) (u : ValueType) :
    ¬ HasUnit values e u := by
  intro hu
  obtain ⟨c, hc, -⟩ := fold_of_hasUnit hu
  cases h.symm.trans hc

/-- An operation that does not fold although its operands do. -/
theorem fold_operands {m : Mark} {op : Operator} {l r : Node} {a b : Constant} {f : Fault}
    (hl : fold values l = .ok a) (hr : fold values r = .ok b)
    (h : fold values (.operation m op l r) = .error f) :
    f = .operands op a.node b.node ∧ ∀ u, ¬ OperationUnit op a.value.type b.value.type u := by
  simp only [fold, hl, hr, Constant.node, combine] at h
  cases hc : combine? op a.value b.value with
  | some v =>
    rw [hc] at h
    cases h
  | none =>
    rw [hc] at h
    cases h
    refine ⟨rfl, fun u hu => ?_⟩
    obtain ⟨v, hv, -⟩ := hu.combines
    cases hc.symm.trans (combine?_iff.mpr hv)

theorem firstStuck_of_fold {e : Node} (hv : e.isValue = true) {f : Fault}
    (h : fold values e = .error f) : ∃ p n, FirstStuck values e p n ∧ Stuck values n f := by
  have hunitless := unitless_of_fold h
  cases e with
  | literal m v => cases h
  | reference m x =>
    refine ⟨[], _, firstStuck_self hunitless (by simp [Node.children]), ?_⟩
    cases hx : values.resolve x with
    | some c => simp [fold, hx] at h
    | none =>
      simp only [fold, hx] at h
      cases h
      exact .unbound hx
  | operation m op l r =>
    rw [Node.isValue, Bool.and_eq_true] at hv
    cases hl : fold values l with
    | error g =>
      obtain rfl : g = f := by simpa [fold, hl] using h
      obtain ⟨p, n, hfirst, hstuck⟩ := firstStuck_of_fold hv.1 hl
      exact ⟨0 :: p, n, hfirst.of_child rfl (by simp), hstuck⟩
    | ok a =>
      have hleft : ∃ u, HasUnit values l u := ⟨_, hasUnit_of_fold hl⟩
      cases hr : fold values r with
      | error g =>
        obtain rfl : g = f := by simpa [fold, hl, hr] using h
        obtain ⟨p, n, hfirst, hstuck⟩ := firstStuck_of_fold hv.2 hr
        refine ⟨1 :: p, n, hfirst.of_child rfl fun j c hj hc => ?_, hstuck⟩
        obtain rfl : j = 0 := by omega
        obtain rfl := Option.some.inj hc
        exact hleft
      | ok b =>
        obtain ⟨rfl, hunits⟩ := fold_operands hl hr h
        refine ⟨[], _, firstStuck_self hunitless fun k c hc => ?_, .operands hl hr hunits⟩
        rcases operand_eq hc with ⟨-, rfl⟩ | ⟨-, rfl⟩
        · exact hleft
        · exact ⟨_, hasUnit_of_fold hr⟩
  | declaration | assignment | ifClause | ifElse | elseClause | rule | sheet | foreign =>
    simp [Node.isValue] at hv

/-- The message of the fault would show a number with more digits than can be written. -/
def ShowsTooLong (f : Fault) : Prop :=
  ∃ op m v m' w, f = .operands op (.literal m v) (.literal m' w) ∧ (v.IsTooLong ∨ w.IsTooLong)

theorem Stuck.reported {n : Node} {f : Fault} (h : Stuck values n f) :
    f.report.kind = .evaluation ↔ ¬ ShowsTooLong f := by
  cases h with
  | unbound hx => simp [Fault.report, Fault.message?, Fault.kind, ShowsTooLong]
  | @operands m op l r a b hl hr h =>
    have hshows : ShowsTooLong (.operands op a.node b.node) ↔ a.value.IsTooLong ∨ b.value.IsTooLong := by
      simp [ShowsTooLong, Constant.node]
    rw [hshows, ← Literal.describe?_eq_none_iff, ← Literal.describe?_eq_none_iff]
    simp only [Fault.report, Fault.message?, Constant.node, Node.describe?]
    cases a.value.describe? <;> cases b.value.describe? <;> simp [Fault.kind]

/-- An expression that does not fold stops the member that holds it, before anything is changed. -/
theorem flattenMember_stop {n e : Node} {f : Fault} (hn : n.isExpression = false)
    (he : n.expressions[0]? = some e) (h : fold values e = .error f) :
    flattenMember values n = .stop n values f := by
  cases n with
  | literal | reference | operation => cases hn
  | declaration | ifClause | ifElse =>
    obtain rfl := Option.some.inj he
    simp only [flattenMember, h]
  | assignment =>
    obtain rfl := Option.some.inj he
    simp only [flattenMember, bindValue, h]
    rfl
  | elseClause | rule | sheet | foreign => cases he

/-- An expression folds exactly if its names are bound and it has a unit; what it folds to is of that
unit, and its number is the one that the bare integers come to. The fault of an expression that does not
fold is that of the node without a unit that is left first, and the member that holds the expression
stops with it before anything is changed. -/
theorem fold_arithmetic (values : Values) {e : Node} (hv : e.isValue = true) :
    (∀ u, (∃ c, fold values e = .ok c ∧ c.value.type = u) ↔
      NamesBound values e ∧ HasUnit values e u) ∧
    (∀ c, fold values e = .ok c → ∀ n, c.value.number? = some n ↔ HasNumber values e n) ∧
    ∀ f, fold values e = .error f →
      (∃ p n, FirstStuck values e p n ∧ Stuck values n f) ∧
      (f.report.kind = .evaluation ↔ ¬ ShowsTooLong f) ∧
      ∀ n, n.isExpression = false → n.expressions[0]? = some e →
        flattenMember values n = .stop n values f := by
  refine ⟨fun u => ⟨?_, fun h => fold_of_hasUnit h.2⟩, fun c hc n => number?_of_fold hc n, ?_⟩
  · rintro ⟨c, hc, rfl⟩
    have hu := hasUnit_of_fold hc
    exact ⟨hu.namesBound, hu⟩
  · intro f hf
    obtain ⟨p, n, hfirst, hstuck⟩ := firstStuck_of_fold hv hf
    exact ⟨⟨p, n, hfirst, hstuck⟩, hstuck.reported, fun n hn he => flattenMember_stop hn he hf⟩

/-- `X - 2 * 3`, where `X` stands for five pixels, comes to minus one pixel; `(#fff + 1) * Q` stops at
the sum, and what `Q` stands for is never asked. -/
theorem fold_arithmetic_nested :
    let values : Values := ⟨.snapshot, [[("X", ⟨none, .pixel 5⟩)]]⟩
    let scalar : Int → Node := fun n => .literal none (.scalar n)
    let difference : Node := .operation none .subtract (.reference none "X")
      (.operation none .multiply (scalar 2) (scalar 3))
    let product : Node := .operation none .multiply
      (.operation none .add (.literal none (.color "#fff")) (scalar 1)) (.reference none "Q")
    HasUnit values difference .pixel ∧ HasNumber values difference (-1) ∧
      ∃ p n, FirstStuck values product p n ∧
        Stuck values n (.operands .add (.literal none (.color "#fff")) (scalar 1)) := by
  intro values scalar difference product
  have hfold : fold values difference = .ok ⟨none, .pixel (-1)⟩ := by rfl
  obtain ⟨hunit, hnumber, -⟩ := fold_arithmetic values (e := difference) rfl
  obtain ⟨-, -, hfault⟩ := fold_arithmetic values (e := product) rfl
  exact ⟨((hunit .pixel).mp ⟨_, hfold, rfl⟩).2, (hnumber _ hfold (-1)).mp rfl, (hfault _ rfl).1⟩

end Evaluation

end StyleLang
