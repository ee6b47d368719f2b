import StyleLang.Proofs.Typing.Agreement

/-!
# Checking against scoping and typing by position

On a well-placed tree with empty slots, checking fills exactly the slots of the nodes that earn a
diagnostic by position, and infers exactly the types by position. Types by position are unique; that
every expression has one is not assumed but follows from checking, which comes to every position.
-/

namespace StyleLang.Typing

open Position

section

variable {root : Node} {p : Position} {t : Option ValueType}

theorem HasType.of_literal (h : HasType root p t) {m : Mark} {v : Literal}
    (hn : root.at? p = some (.literal m v)) : t = some v.type := by
  cases h with
  | literal h => cases hn.symm.trans h; rfl
  | unbound h | bound h | unknown h | illTyped h | operation h => cases hn.symm.trans h

theorem HasType.of_reference (h : HasType root p t) {m : Mark} {x : String}
    (hn : root.at? p = some (.reference m x)) :
    (t = none ∧ ∀ q, ¬ root.Visible x q p) ∨
      ∃ q, root.LastVisible x q p ∧ HasType root (q ++ [0]) t := by
  cases h with
  | unbound h hv => cases hn.symm.trans h; exact Or.inl ⟨rfl, hv⟩
  | bound h hq ht => cases hn.symm.trans h; exact Or.inr ⟨_, hq, ht⟩
  | literal h | unknown h | illTyped h | operation h => cases hn.symm.trans h

theorem HasType.of_operation (h : HasType root p t) {m : Mark} {op : Operator} {l r : Node}
    (hn : root.at? p = some (.operation m op l r)) :
    ∃ a b, HasType root (p ++ [0]) a ∧ HasType root (p ++ [1]) b ∧
      ∀ selector, t = operationResult op a b selector := by
  cases h with
  | unknown h hl hr hst =>
    refine ⟨_, _, hl, hr, fun selector => ?_⟩
    rcases hst with rfl | rfl
    · rfl
    · simp only [operationResult]
  | illTyped h hl hr hst =>
    cases hn.symm.trans h
    refine ⟨_, _, hl, hr, fun selector => ?_⟩
    obtain ⟨d, hd⟩ := (operandFault_iff selector).mpr hst
    rw [operationResult, checkOperands_iff.mpr hd]
  | operation h hl hr hst =>
    cases hn.symm.trans h
    refine ⟨_, _, hl, hr, fun selector => ?_⟩
    obtain ⟨hc, hu⟩ := (operationType_iff selector).mpr hst
    rw [operationResult, hc, hu]
  | literal h | unbound h | bound h => cases hn.symm.trans h

theorem HasType.unique {t' : Option ValueType} (h : HasType root p t) (h' : HasType root p t') :
    t = t' := by
  induction h generalizing t' with
  | literal h => exact (h'.of_literal h).symm
  | unbound h hv =>
    rcases h'.of_reference h with ⟨rfl, -⟩ | ⟨q, hq, -⟩
    · rfl
    · exact absurd hq.visible (hv q)
  | bound h hq ht ih =>
    rcases h'.of_reference h with ⟨-, hv⟩ | ⟨q', hq', ht'⟩
    · exact absurd hq.visible (hv _)
    · obtain rfl := hq.unique hq'
      exact ih ht'
  | unknown h hl hr hst ihl ihr =>
    obtain ⟨a, b, ha, hb, ht⟩ := h'.of_operation h
    obtain rfl := ihl ha
    obtain rfl := ihr hb
    rw [ht none]
    rcases hst with rfl | rfl
    · rfl
    · simp only [operationResult]
  | illTyped h hl hr hst ihl ihr =>
    obtain ⟨a, b, ha, hb, ht⟩ := h'.of_operation h
    obtain rfl := ihl ha
    obtain rfl := ihr hb
    obtain ⟨d, hd⟩ := (operandFault_iff none).mpr hst
    rw [ht none, operationResult, checkOperands_iff.mpr hd]
  | operation h hl hr hst ihl ihr =>
    obtain ⟨a, b, ha, hb, ht⟩ := h'.of_operation h
    obtain rfl := ihl ha
    obtain rfl := ihr hb
    obtain ⟨hc, hu⟩ := (operationType_iff none).mpr hst
    rw [ht none, operationResult, hc, hu]

theorem HasType.iff_eq {t' : Option ValueType} (h : HasType root p t) :
    HasType root p t' ↔ t = t' := by
  constructor
  · exact h.unique
  · rintro rfl
    exact h

end

section

variable {table : PropertyTable} {s : Sheet} {p : Position} {sel : Option String} {types : Types}
  {n : Node}

theorem Arrives.infer_ok_iff_hasType (hw : s.isWellPlaced = true) (h : Arrives table s p sel types)
    (hn : s.node.at? p = some n) (hv : n.isValue = true) (t : Option ValueType) :
    (infer types sel n).result = .ok t ↔ HasType s.node p t := by
  constructor
  · exact infer_hasType (h.agrees hw) hn
  · intro ht
    obtain ⟨u, hu⟩ := infer_ok hv types sel
    rw [hu, (infer_hasType (h.agrees hw) hn hu).unique ht]

/-- What inference makes of an expression of a node, and that its position has that type. -/
theorem Arrives.infer_expression (hw : s.isWellPlaced = true) (h : Arrives table s p sel types)
    (hn : s.node.at? p = some n) {k : Nat} {e : Node} (he : n.expressions[k]? = some e) :
    ∃ t, (infer types sel e).result = .ok t ∧ HasType s.node (p ++ [k]) t := by
  obtain ⟨t, ht⟩ := infer_ok ((h.placed hw hn).expression he) types sel
  have hat : s.node.at? (p ++ [k]) = some e := by
    rw [Node.at?_child hn, Node.children_of_expressions he]
  exact ⟨t, ht, infer_hasType ((h.expression hn he).agrees hw) hat ht⟩

/-- Every expression of a well-placed sheet has a type. -/
theorem hasType_exists (table : PropertyTable) (hw : s.isWellPlaced = true)
    (hn : s.node.at? p = some n) (hv : n.isValue = true) : ∃ t, HasType s.node p t := by
  have hp : p ≠ [] := by
    intro h
    obtain rfl := h
    cases hn
    simp [Sheet.node, Node.isValue] at hv
  obtain ⟨sel, types, h⟩ := arrives_of_at? table hw hn hp
  obtain ⟨t, ht⟩ := infer_ok hv types sel
  exact ⟨t, infer_hasType (h.agrees hw) hn ht⟩

/-- If any assignment counts for a name, one of them is the last. -/
theorem lastVisible_exists (table : PropertyTable) (hw : s.isWellPlaced = true)
    (hn : s.node.at? p = some n) (hp : p ≠ []) {x : String} {q : Position}
    (hq : s.node.Visible x q p) : ∃ q', s.node.LastVisible x q' p := by
  obtain ⟨sel, types, h⟩ := arrives_of_at? table hw hn hp
  cases hx : types.resolve x with
  | none => exact absurd hq ((h.agrees hw).unbound hx q)
  | some t =>
    obtain ⟨q', hq', -⟩ := (h.agrees hw).bound hx
    exact ⟨q', hq'⟩

end

section

variable {table : PropertyTable} {root : Node} {p : Position} {d : Diagnostic}

theorem earns_reference {m : Mark} {x : String} (hn : root.at? p = some (.reference m x)) :
    Earns table root p d ↔
      (∀ q, ¬ root.Visible x q p) ∧ d = undefinedVariable x (root.selectorAt p) := by
  constructor
  · intro h
    cases h with
    | undefined h hv => cases hn.symm.trans h; exact ⟨hv, rfl⟩
    | condition h hc => cases hn.symm.trans h; cases hc
    | operands h | property h => cases hn.symm.trans h
  · intro h
    obtain ⟨hv, rfl⟩ := h
    exact .undefined hn hv

theorem earns_operation {m : Mark} {op : Operator} {l r : Node}
    (hn : root.at? p = some (.operation m op l r)) :
    Earns table root p d ↔ ∃ a b, HasType root (p ++ [0]) (some a) ∧
      HasType root (p ++ [1]) (some b) ∧ OperandFault op a b (root.selectorAt p) d := by
  constructor
  · intro h
    cases h with
    | operands h hl hr hd => cases hn.symm.trans h; exact ⟨_, _, hl, hr, hd⟩
    | condition h hc => cases hn.symm.trans h; cases hc
    | undefined h | property h => cases hn.symm.trans h
  · intro h
    obtain ⟨a, b, hl, hr, hd⟩ := h
    exact .operands hn hl hr hd

theorem earns_condition {n : Node} (hn : root.at? p = some n) (hc : n.condition?.isSome) :
    Earns table root p d ↔ ∃ t, HasType root (p ++ [0]) t ∧ t ≠ some .bool ∧
      d = ⟨"condition_not_bool", .type, "If-clause condition must be a boolean",
        root.selectorAt p⟩ := by
  constructor
  · intro h
    cases h with
    | condition h hc ht hb => exact ⟨_, ht, hb, rfl⟩
    | undefined h | operands h | property h => cases hn.symm.trans h; cases hc
  · intro h
    obtain ⟨t, ht, hb, rfl⟩ := h
    exact .condition hn hc ht hb

theorem earns_declaration {m : Mark} {name : String} {e : Node}
    (hn : root.at? p = some (.declaration m name e)) :
    Earns table root p d ↔ ∃ t required, HasType root (p ++ [0]) t ∧
      table.required name = some required ∧ t ≠ some required ∧
      d = ⟨"property_type", .type, "Only " ++ required.name
        ++ " values can be assigned to property '" ++ name ++ "'", root.selectorAt p⟩ := by
  constructor
  · intro h
    cases h with
    | property h hr ht hne => cases hn.symm.trans h; exact ⟨_, _, ht, hr, hne, rfl⟩
    | condition h hc => cases hn.symm.trans h; cases hc
    | undefined h | operands h => cases hn.symm.trans h
  · intro h
    obtain ⟨t, required, ht, hr, hne, rfl⟩ := h
    exact .property hn hr ht hne

/-- Literals, assignments, else-clauses, rules and sheets earn nothing. -/
theorem not_earns {n : Node} (hn : root.at? p = some n)
    (hx : n.isExpression = false ∨ n.literal?.isSome) (hc : n.condition? = none)
    (hd : ∀ m name e, n ≠ .declaration m name e) : ¬ Earns table root p d := by
  intro h
  cases h with
  | undefined h | operands h =>
    obtain rfl := Option.some.inj (hn.symm.trans h)
    simp [Node.isExpression, Node.literal?] at hx
  | condition h hc' =>
    obtain rfl := Option.some.inj (hn.symm.trans h)
    simp [hc] at hc'
  | property h => exact hd _ _ _ (Option.some.inj (hn.symm.trans h))

end

section

variable {table : PropertyTable} {s : Sheet} {p : Position} {sel : Option String} {types : Types}
  {n : Node}

theorem checkCondition_eq {t : Option ValueType} {d : Diagnostic} (sel : Option String) :
    checkCondition t sel = some d ↔ t ≠ some .bool ∧
      d = ⟨"condition_not_bool", .type, "If-clause condition must be a boolean", sel⟩ := by
  unfold checkCondition
  split
  · rename_i h
    simp [h]
  · rename_i h
    simp [h, eq_comm]

theorem checkProperty_eq {name : String} {t : Option ValueType} {d : Diagnostic}
    (sel : Option String) :
    checkProperty table name t sel = some d ↔ ∃ required, table.required name = some required ∧
      t ≠ some required ∧ d = ⟨"property_type", .type, "Only " ++ required.name
        ++ " values can be assigned to property '" ++ name ++ "'", sel⟩ := by
  unfold checkProperty
  cases table.required name with
  | none => simp
  | some required =>
    by_cases h : t = some required
    · simp [h]
    · simp [h, eq_comm]

theorem operationFault_eq {op : Operator} {a b : Option ValueType} {d : Diagnostic}
    (sel : Option String) :
    operationFault op a b sel = some d ↔
      ∃ u w, a = some u ∧ b = some w ∧ OperandFault op u w sel d := by
  cases a with
  | none => simp [operationFault]
  | some u =>
    cases b with
    | none => simp [operationFault]
    | some w => simp [operationFault, checkOperands_iff]

theorem earns_iff_operationFault {root : Node} {m : Mark} {op : Operator} {l r : Node} {d : Diagnostic}
    (hn : root.at? p = some (.operation m op l r)) {a b : Option ValueType}
    (ha : HasType root (p ++ [0]) a) (hb : HasType root (p ++ [1]) b) :
    Earns table root p d ↔ operationFault op a b (root.selectorAt p) = some d := by
  rw [earns_operation hn, operationFault_eq]
  constructor
  · intro h
    obtain ⟨u, w, hu, hw, hd⟩ := h
    exact ⟨u, w, ha.unique hu, hb.unique hw, hd⟩
  · intro h
    obtain ⟨u, w, rfl, rfl, hd⟩ := h
    exact ⟨u, w, ha, hb, hd⟩

theorem earns_iff_checkCondition {root : Node} {d : Diagnostic} (hn : root.at? p = some n)
    (hc : n.condition?.isSome) {t : Option ValueType} (ht : HasType root (p ++ [0]) t) :
    Earns table root p d ↔ checkCondition t (root.selectorAt p) = some d := by
  rw [earns_condition hn hc, checkCondition_eq]
  constructor
  · intro h
    obtain ⟨u, hu, hne, rfl⟩ := h
    obtain rfl := ht.unique hu
    exact ⟨hne, rfl⟩
  · intro h
    obtain ⟨hne, rfl⟩ := h
    exact ⟨t, ht, hne, rfl⟩

theorem earns_iff_checkProperty {root : Node} {m : Mark} {name : String} {e : Node} {d : Diagnostic}
    (hn : root.at? p = some (.declaration m name e)) {t : Option ValueType}
    (ht : HasType root (p ++ [0]) t) :
    Earns table root p d ↔ checkProperty table name t (root.selectorAt p) = some d := by
  rw [earns_declaration hn, checkProperty_eq]
  constructor
  · intro h
    obtain ⟨u, required, hu, hr, hne, rfl⟩ := h
    obtain rfl := ht.unique hu
    exact ⟨required, hr, hne, rfl⟩
  · intro h
    obtain ⟨required, hr, hne, rfl⟩ := h
    exact ⟨t, required, ht, hr, hne, rfl⟩

/-- An if-clause, with or without an else-clause, is marked by the type of its condition. -/
theorem Arrives.condition_mark (hw : s.isWellPlaced = true) (h : Arrives table s p sel types)
    (hn : s.node.at? p = some n) {c : Node} (hc : n.condition? = some c) :
    ∃ t, HasType s.node (p ++ [0]) t ∧
      (checkedNode table sel types n).mark = n.mark.fill (checkCondition t sel) := by
  have he : n.expressions[0]? = some c := by cases n <;> simp_all [Node.condition?, Node.expressions]
  obtain ⟨t, ht, hty⟩ := h.infer_expression hw hn he
  refine ⟨t, hty, ?_⟩
  have hp := h.placed hw hn
  cases n with
  | ifClause m c' body =>
    cases hc
    cases sel with
    | none => simp [Placed, Node.isSheetMember, Node.isValue] at hp
    | some sel => simp only [checkedNode, checkMember_ifClause table ht, Node.mark]
  | ifElse m c' body em ebody =>
    cases hc
    cases sel with
    | none => simp [Placed, Node.isSheetMember, Node.isValue] at hp
    | some sel =>
      have hb := (checkBody_ok_iff table sel types.enter_ne_nil body).mpr (hp.members rfl)
      simp only [checkedNode, checkMember_ifElse table ht hb, Node.mark]
  | literal | reference | operation | declaration | assignment | elseClause | rule | sheet | foreign =>
    cases hc

/-- Checking fills the slot of a node, unless it is filled already, with what the node earns. -/
theorem Arrives.mark_fill (hw : s.isWellPlaced = true) (h : Arrives table s p sel types)
    (hn : s.node.at? p = some n) :
    ∃ d, (checkedNode table sel types n).mark = n.mark.fill d ∧
      ∀ d', d = some d' ↔ Earns table s.node p d' := by
  have hsel := (h.selectorAt hw).2
  have hplain : (checkedNode table sel types n).mark = n.mark →
      (∀ d', ¬ Earns table s.node p d') →
      ∃ d, (checkedNode table sel types n).mark = n.mark.fill d ∧
        ∀ d', d = some d' ↔ Earns table s.node p d' := by
    intro hsame hearns
    refine ⟨none, by rw [hsame, Mark.fill_none], fun d' => ?_⟩
    simp [hearns d']
  cases n with
  | literal => exact hplain rfl fun _ => not_earns hn (Or.inr rfl) rfl (by simp)
  | foreign | sheet => exact hplain rfl fun _ => not_earns hn (Or.inl rfl) rfl (by simp)
  | elseClause m body =>
    refine hplain ?_ fun _ => not_earns hn (Or.inl rfl) rfl (by simp)
    cases sel <;> rfl
  | rule m ss body =>
    refine hplain ?_ fun _ => not_earns hn (Or.inl rfl) rfl (by simp)
    rw [checkedNode, checkSheetMember_rule]
    rfl
  | assignment m x e =>
    refine hplain ?_ fun _ => not_earns hn (Or.inl rfl) rfl (by simp)
    obtain ⟨t, ht, -⟩ := h.infer_expression hw hn (k := 0) rfl
    obtain ⟨types', -, hc⟩ := checkAssignment_eq h.ne_nil ht m x
    rw [checkedNode, hc]
    rfl
  | reference m x =>
    cases hx : types.resolve x with
    | some t =>
      obtain ⟨q, hq, -⟩ := (h.agrees hw).bound hx
      refine hplain (by simp only [checkedNode, infer, hx]) fun d' => ?_
      rw [earns_reference hn]
      intro h
      obtain ⟨hv, -⟩ := h
      exact hv q hq.visible
    | none =>
      refine ⟨some (undefinedVariable x sel), by simp only [checkedNode, infer, hx, Node.mark], ?_⟩
      intro d'
      have hv := (h.agrees hw).unbound hx
      rw [earns_reference hn, hsel, Option.some.injEq]
      exact ⟨fun hd => ⟨hv, hd.symm⟩, fun hd => hd.2.symm⟩
  | operation m op l r =>
    obtain ⟨a, ha, hta⟩ := h.infer_expression hw hn (k := 0) rfl
    obtain ⟨b, hb, htb⟩ := h.infer_expression hw hn (k := 1) rfl
    refine ⟨operationFault op a b sel, by simp only [checkedNode, infer_operation ha hb, Node.mark],
      fun d' => ?_⟩
    rw [earns_iff_operationFault hn hta htb, hsel]
  | declaration m name e =>
    obtain ⟨t, ht, hty⟩ := h.infer_expression hw hn (k := 0) rfl
    cases sel with
    | none => simpa [Placed, Node.isSheetMember, Node.isValue] using h.placed hw hn
    | some sel =>
      refine ⟨checkProperty table name t (some sel), ?_, fun d' => ?_⟩
      · simp only [checkedNode, checkMember_declaration table ht, Passage.done, Node.mark]
      · rw [earns_iff_checkProperty hn hty, hsel]
  | ifClause m c body | ifElse m c body em ebody =>
    obtain ⟨t, hty, hmark⟩ := h.condition_mark hw hn rfl
    refine ⟨checkCondition t sel, hmark, fun d' => ?_⟩
    rw [earns_iff_checkCondition hn rfl hty, hsel]

/-- The slot of a node whose slot was empty is filled with what the node earns, if with anything. -/
theorem Arrives.mark_iff_earns (hw : s.isWellPlaced = true) (h : Arrives table s p sel types)
    (hn : s.node.at? p = some n) (hm : n.mark = none) (d : Diagnostic) :
    (checkedNode table sel types n).mark = some d ↔ Earns table s.node p d := by
  obtain ⟨d?, hd, hearns⟩ := h.mark_fill hw hn
  rw [hd, hm, Mark.none_fill]
  exact hearns d

end

/-- What checking makes of the node `n` at `p` of a sheet whose slots are empty is `n'`. -/
structure Faithful (table : PropertyTable) (s : Sheet) (p : Position) (n n' : Node) : Prop where
  marked : ∀ d, n'.mark = some d ↔ Earns table s.node p d
  typed : n.isValue = true → ∃! t, HasType s.node p t
  inferred : ∀ sel types, Arrives table s p sel types → n.isValue = true →
    ∀ t, (infer types sel n).result = .ok t ↔ HasType s.node p t
  /-- A reference is marked if no assignment counts for it, and else has the type of the last. -/
  reference : ∀ m x, n = .reference m x →
    (n'.mark = some (undefinedVariable x (s.node.selectorAt p)) ↔
      ∀ q, ¬ s.node.Visible x q p) ∧
    (n'.mark = none ↔ ∃ q, s.node.LastVisible x q p) ∧
    ∀ q, s.node.LastVisible x q p → ∀ t, HasType s.node p t ↔ HasType s.node (q ++ [0]) t
  /-- An operation is marked if its operands have types that break the operand rule; its type is
  unknown if it is marked or an operand's type is unknown. -/
  operation : ∀ m op l r, n = .operation m op l r →
    (∀ d, n'.mark = some d ↔ ∃ a b, HasType s.node (p ++ [0]) (some a) ∧
      HasType s.node (p ++ [1]) (some b) ∧ OperandFault op a b (s.node.selectorAt p) d) ∧
    (HasType s.node p none ↔ n'.mark ≠ none ∨ HasType s.node (p ++ [0]) none ∨
      HasType s.node (p ++ [1]) none)
  /-- An if-clause is marked unless its condition is known to be a boolean. -/
  condition : n.condition?.isSome → ((n'.mark = some ⟨"condition_not_bool", .type,
      "If-clause condition must be a boolean", s.node.selectorAt p⟩ ↔
        ¬ HasType s.node (p ++ [0]) (some .bool)) ∧
    (n'.mark = none ↔ HasType s.node (p ++ [0]) (some .bool)))
  /-- A declaration is marked if its property requires a type that its value is not known to have. -/
  property : ∀ m name e, n = .declaration m name e → ∀ d, n'.mark = some d ↔
    ∃ required, table.required name = some required ∧
      ¬ HasType s.node (p ++ [0]) (some required) ∧ d = ⟨"property_type", .type,
        "Only " ++ required.name ++ " values can be assigned to property '" ++ name ++ "'",
        s.node.selectorAt p⟩
  /-- Nothing else is marked. -/
  other : n.isExpression = false ∨ n.literal?.isSome → n.condition? = none →
    (∀ m name e, n ≠ .declaration m name e) → n'.mark = none

theorem HasType.none_iff {root : Node} {p : Position} {m : Mark} {op : Operator} {l r : Node}
    (hn : root.at? p = some (.operation m op l r)) {a b : Option ValueType}
    (ha : HasType root (p ++ [0]) a) (hb : HasType root (p ++ [1]) b) :
    HasType root p none ↔
      (∃ u w d, a = some u ∧ b = some w ∧ OperandFault op u w (root.selectorAt p) d) ∨
        a = none ∨ b = none := by
  constructor
  · intro h
    obtain ⟨a', b', ha', hb', ht⟩ := h.of_operation hn
    obtain rfl := ha.unique ha'
    obtain rfl := hb.unique hb'
    cases a with
    | none => exact Or.inr (Or.inl rfl)
    | some u =>
      cases b with
      | none => exact Or.inr (Or.inr rfl)
      | some w =>
        have hres := ht (root.selectorAt p)
        cases hc : checkOperands op u w (root.selectorAt p) with
        | none => simp [operationResult, hc] at hres
        | some d => exact Or.inl ⟨u, w, d, rfl, rfl, checkOperands_iff.mp hc⟩
  · intro h
    rcases h with ⟨u, w, d, rfl, rfl, hd⟩ | h
    · exact .illTyped hn ha hb ((operandFault_iff _).mp ⟨d, hd⟩)
    · exact .unknown hn ha hb h

/-- Marks that are what nodes earn are marks as each kind of node has them. -/
theorem faithful_of_earns {table : PropertyTable} {s : Sheet} (hw : s.isWellPlaced = true)
    {p : Position} {n n' : Node} (hn : s.node.at? p = some n)
    (hm : ∀ d, n'.mark = some d ↔ Earns table s.node p d) : Faithful table s p n n' := by
  have hroot : n.expressions ≠ [] ∨ n.isValue = true → p ≠ [] := by
    intro h h
    obtain rfl := h
    cases hn
    simp [Sheet.node, Node.expressions, Node.isValue] at h
  have htype : ∀ k e, n.expressions[k]? = some e → ∃ t, HasType s.node (p ++ [k]) t := by
    intro k e he
    have hp : p ≠ [] := hroot (Or.inl (by rintro h; simp [h] at he))
    obtain ⟨sel, types, h⟩ := arrives_of_at? table hw hn hp
    obtain ⟨t, -, ht⟩ := h.infer_expression hw hn he
    exact ⟨t, ht⟩
  have hnone : n'.mark = none ↔ ∀ d, ¬ Earns table s.node p d := by
    simp only [← hm]
    cases n'.mark <;> simp
  refine ⟨hm, ?typed, ?inferred, ?reference, ?operation, ?condition, ?property, ?other⟩
  case typed =>
    intro hv
    obtain ⟨t, ht⟩ := hasType_exists table hw hn hv
    exact ⟨t, ht, fun u hu => hu.unique ht⟩
  case inferred =>
    intro sel types h hv
    exact h.infer_ok_iff_hasType hw hn hv
  case reference =>
    intro m x h
    obtain rfl := h
    have hp : p ≠ [] := hroot (Or.inr rfl)
    refine ⟨?_, ?_, ?_⟩
    · rw [hm, earns_reference hn]
      simp
    · rw [hnone]
      simp only [earns_reference hn]
      constructor
      · intro h
        obtain ⟨q, hq⟩ : ∃ q, s.node.Visible x q p := by
          by_contra hnot
          rw [not_exists] at hnot
          exact h _ ⟨hnot, rfl⟩
        exact lastVisible_exists table hw hn hp hq
      · rintro ⟨q, hq⟩ d ⟨hv, -⟩
        exact hv q hq.visible
    · intro q hq t
      constructor
      · intro ht
        rcases ht.of_reference hn with ⟨-, hv⟩ | ⟨q', hq', ht'⟩
        · exact absurd hq.visible (hv q)
        · rwa [hq.unique hq']
      · exact .bound hn hq
  case operation =>
    intro m op l r h
    obtain rfl := h
    obtain ⟨a, ha⟩ := htype 0 l rfl
    obtain ⟨b, hb⟩ := htype 1 r rfl
    refine ⟨fun d => (hm d).trans (earns_operation hn), ?_⟩
    rw [HasType.none_iff hn ha hb, ha.iff_eq, hb.iff_eq]
    refine or_congr ?_ Iff.rfl
    rw [ne_eq, hnone, not_forall]
    simp only [not_not, earns_iff_operationFault hn ha hb, operationFault_eq]
    constructor
    · intro h
      obtain ⟨u, w, d, rfl, rfl, hd⟩ := h
      exact ⟨d, u, w, rfl, rfl, hd⟩
    · intro h
      obtain ⟨d, u, w, rfl, rfl, hd⟩ := h
      exact ⟨u, w, d, rfl, rfl, hd⟩
  case condition =>
    intro hc
    obtain ⟨t, ht⟩ : ∃ t, HasType s.node (p ++ [0]) t := by
      obtain ⟨c, hc⟩ := Option.isSome_iff_exists.mp hc
      exact htype 0 c (by cases n <;> simp_all [Node.condition?, Node.expressions])
    have hearns : ∀ d, Earns table s.node p d ↔ t ≠ some .bool ∧ d = ⟨"condition_not_bool", .type,
        "If-clause condition must be a boolean", s.node.selectorAt p⟩ := fun d =>
      (earns_iff_checkCondition hn hc ht).trans (checkCondition_eq _)
    rw [hm, hnone, ht.iff_eq, hearns]
    simp [hearns]
  case property =>
    rintro m name e rfl d
    obtain ⟨t, ht⟩ := htype 0 e rfl
    rw [hm, earns_iff_checkProperty hn ht, checkProperty_eq]
    simp only [ht.iff_eq, ne_eq]
  case other =>
    intro hx hc hd
    rw [hnone]
    intro d
    exact not_earns hn hx hc hd

/-- Checking a well-placed sheet whose slots are empty ends normally, changes nothing but slots, and
is faithful at every position. -/
theorem check_faithful (table : PropertyTable) (s : Sheet) (hw : s.isWellPlaced = true)
    (hc : s.node.hasErrors = false) :
    (s.check table).result = .ok () ∧ (s.check table).tree.node.same s.node = true ∧
      ∀ p n, s.node.at? p = some n → ∃ n', (s.check table).tree.node.at? p = some n' ∧
        Faithful table s p n n' := by
  refine ⟨(s.check_ok_iff table).mpr hw, s.check_same table, ?_⟩
  intro p n hn
  have hm : n.mark = none := Node.mark_at? hc hn
  by_cases hp : p = []
  · subst hp
    obtain rfl := Option.some.inj hn
    refine ⟨(s.check table).tree.node, rfl, faithful_of_earns hw rfl fun d => ?_⟩
    have hnone : (s.check table).tree.node.mark = none := by
      rw [Sheet.check_tree]
      exact hm
    have hearns : ¬ Earns table s.node [] d :=
      not_earns hn (Or.inl rfl) rfl (by simp [Sheet.node])
    simp [hnone, hearns]
  · obtain ⟨sel, types, h⟩ := arrives_of_at? table hw hn hp
    exact ⟨_, h.at?_checked hw hn, faithful_of_earns hw hn (h.mark_iff_earns hw hn hm)⟩

/-- An assignment does not count for its own expression, whatever is assigned. -/
theorem check_faithful_ownExpression :
    let s : Sheet := ⟨none, [.assignment none "A" (.reference none "A"),
      .rule none [.tag "p"] [.declaration none "width" (.reference none "A")]]⟩
    s.isWellPlaced = true ∧ s.node.hasErrors = false ∧
      (∀ q, ¬ s.node.Visible "A" q [0, 0]) ∧ ∃ q, s.node.LastVisible "A" q [1, 0, 0] := by
  intro s
  have hw : s.isWellPlaced = true := rfl
  have hc : s.node.hasErrors = false := by
    simp [s, Sheet.node, Node.hasErrors, Node.walk, Node.visit, Node.children, Node.mark]
  refine ⟨hw, hc, ?_, ?_⟩
  · obtain ⟨n', hn', h⟩ := (check_faithful .builtin s hw hc).2.2 [0, 0] _ rfl
    apply ((h.reference none "A" rfl).1).mp
    cases hn'
    rfl
  · obtain ⟨n', hn', h⟩ := (check_faithful .builtin s hw hc).2.2 [1, 0, 0] _ rfl
    apply ((h.reference none "A" rfl).2.1).mp
    cases hn'
    rfl

end StyleLang.Typing
