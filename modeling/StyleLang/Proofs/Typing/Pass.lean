import StyleLang.Proofs.Scope.Chain
import StyleLang.Proofs.Tree.Placement
import StyleLang.Typing.Check

/-!
# The course of a check

What checking does to its chain and when it ends normally. A member leaves the chain as it was, but
for the one name that an assignment binds; a check ends normally exactly on well-placed trees. The
types themselves do not come in.
-/

namespace StyleLang

namespace Typing

theorem checkAssignment_sameBelow (types : Types) (sel : Option String) (m : Mark) (x : String)
    (e : Node) : types.SameBelow (checkAssignment types sel m x e).chain := by
  simp only [checkAssignment]
  split
  · exact .refl types
  · exact Passage.sameBelow_bind _ _ _ _

mutual

theorem checkMember_sameBelow (table : PropertyTable) (sel : String) (types : Types) (n : Node) :
    types.SameBelow (checkMember table sel types n).chain := by
  cases n with
  | declaration m p e =>
    simp only [checkMember]
    split <;> exact .refl types
  | assignment m x e => exact checkAssignment_sameBelow types (some sel) m x e
  | ifClause m c body =>
    simp only [checkMember]
    split
    · exact .refl types
    · exact Passage.sameBelow_inScope (checkBody_sameBelow table sel types.enter body)
  | ifElse m c body em ebody =>
    simp only [checkMember]
    split
    · exact .refl types
    · apply Passage.sameBelow_andThen
      · exact Passage.sameBelow_inScope (checkBody_sameBelow table sel types.enter body)
      · intro d _
        exact Passage.sameBelow_inScope (checkBody_sameBelow table sel d.enter ebody)
  | literal | reference | operation | elseClause | rule | sheet | foreign => exact .refl types

theorem checkBody_sameBelow (table : PropertyTable) (sel : String) (types : Types)
    (ns : List Node) : types.SameBelow (checkBody table sel types ns).chain := by
  cases ns with
  | nil => exact .refl types
  | cons n ns =>
    exact Passage.sameBelow_andThen (checkMember_sameBelow table sel types n)
      fun d _ => checkBody_sameBelow table sel d ns

end

/-- A body that is checked in a scope of its own. -/
theorem inScope_checkBody (table : PropertyTable) (sel : String) (types : Types) (ns : List Node) :
    (Passage.inScope types fun opened => checkBody table sel opened ns) =
      { checkBody table sel types.enter ns with
        chain := types
        calls := .enter :: ((checkBody table sel types.enter ns).calls ++ [.leave]) } :=
  Passage.inScope_eq (checkBody_sameBelow table sel types.enter ns)

theorem checkSheetMember_sameBelow (table : PropertyTable) (types : Types) (n : Node) :
    types.SameBelow (checkSheetMember table types n).chain := by
  cases n with
  | assignment m x e => exact checkAssignment_sameBelow types none m x e
  | rule m ss body =>
    simp only [checkSheetMember, inScope_checkBody, Passage.mapTree]
    exact .refl types
  | literal | reference | operation | declaration | ifClause | ifElse | elseClause | sheet
  | foreign => exact .refl types

theorem checkBody_eq_each (table : PropertyTable) (sel : String) (types : Types) (ns : List Node) :
    checkBody table sel types ns = Passage.each (checkMember table sel) types ns := by
  induction ns generalizing types with
  | nil => rfl
  | cons n ns ih => simp only [checkBody, Passage.each, ih]

theorem checkMembers_eq_each (table : PropertyTable) (types : Types) (ns : List Node) :
    checkMembers table types ns = Passage.each (checkSheetMember table) types ns := by
  induction ns generalizing types with
  | nil => rfl
  | cons n ns ih => simp only [checkMembers, Passage.each, ih]

theorem checkMembers_sameBelow (table : PropertyTable) (types : Types) (ns : List Node) :
    types.SameBelow (checkMembers table types ns).chain := by
  rw [checkMembers_eq_each]
  exact Passage.each_sameBelow (checkSheetMember_sameBelow table) types ns

theorem inScope_checkMembers (table : PropertyTable) (types : Types) (ns : List Node) :
    (Passage.inScope types fun opened => checkMembers table opened ns) =
      { checkMembers table types.enter ns with
        chain := types
        calls := .enter :: ((checkMembers table types.enter ns).calls ++ [.leave]) } :=
  Passage.inScope_eq (checkMembers_sameBelow table types.enter ns)

theorem infer_ok_iff (types : Types) (sel : Option String) (e : Node) :
    (∃ t, (infer types sel e).result = .ok t) ↔ e.isValue = true := by
  cases e with
  | literal m v => simp [infer, Node.isValue]
  | reference m x =>
    simp only [infer, Node.isValue]
    split <;> simp
  | operation m op l r =>
    have hl := infer_ok_iff types sel l
    have hr := infer_ok_iff types sel r
    simp only [infer, Node.isValue, Bool.and_eq_true]
    rw [← hl, ← hr]
    cases (infer types sel l).result with
    | error f => simp
    | ok s =>
      cases (infer types sel r).result with
      | error f => simp
      | ok t =>
        cases s <;> cases t <;> simp
        split <;> simp
  | declaration | assignment | ifClause | ifElse | elseClause | rule | sheet | foreign =>
    simp [infer, Node.isValue]

theorem infer_ok {e : Node} (h : e.isValue = true) (types : Types) (sel : Option String) :
    ∃ t, (infer types sel e).result = .ok t :=
  (infer_ok_iff types sel e).mpr h

theorem checkAssignment_ok_iff {types : Types} (h : types.scopes ≠ []) (sel : Option String)
    (m : Mark) (x : String) (e : Node) :
    (checkAssignment types sel m x e).result = .ok () ↔ e.isValue = true := by
  rw [← infer_ok_iff types sel e]
  cases ht : (infer types sel e).result with
  | error f => simp [checkAssignment, ht, Passage.stop]
  | ok t =>
    obtain ⟨d, hd⟩ := Chain.bind_ok h x t
    simp [checkAssignment, ht, Passage.chain_bind hd]

mutual

theorem checkMember_ok_iff (table : PropertyTable) (sel : String) {types : Types}
    (h : types.scopes ≠ []) (n : Node) :
    (checkMember table sel types n).result = .ok () ↔ n.isBodyMember = true := by
  cases n with
  | declaration m p e =>
    rw [Node.isBodyMember, ← infer_ok_iff types (some sel) e]
    simp only [checkMember]
    cases (infer types (some sel) e).result <;> simp [Passage.stop, Passage.done]
  | assignment m x e => exact checkAssignment_ok_iff h (some sel) m x e
  | ifClause m c body =>
    have hb := checkBody_ok_iff table sel types.enter_ne_nil body
    rw [Node.isBodyMember, Bool.and_eq_true, ← infer_ok_iff types (some sel) c, ← hb]
    simp only [checkMember, inScope_checkBody, Passage.mapTree]
    cases (infer types (some sel) c).result <;> simp [Passage.stop]
  | ifElse m c body em ebody =>
    have hb := checkBody_ok_iff table sel types.enter_ne_nil body
    have he := checkBody_ok_iff table sel types.enter_ne_nil ebody
    rw [Node.isBodyMember, Bool.and_eq_true, Bool.and_eq_true,
      ← infer_ok_iff types (some sel) c, ← hb, ← he]
    simp only [checkMember]
    cases (infer types (some sel) c).result with
    | error f => simp [Passage.stop]
    | ok t =>
      simp only [Passage.andThen_unit_ok, inScope_checkBody]
      simp
  | literal | reference | operation | elseClause | rule | sheet | foreign =>
    simp [checkMember, Passage.stop, Node.isBodyMember]

theorem checkBody_ok_iff (table : PropertyTable) (sel : String) {types : Types}
    (h : types.scopes ≠ []) (ns : List Node) :
    (checkBody table sel types ns).result = .ok () ↔ Node.areBodyMembers ns = true := by
  cases ns with
  | nil => simp [checkBody, Passage.done, Node.areBodyMembers]
  | cons n ns =>
    have hn := checkMember_ok_iff table sel h n
    have hc := (checkMember_sameBelow table sel types n).ne_nil h
    have hns := checkBody_ok_iff table sel hc ns
    rw [Node.areBodyMembers, Bool.and_eq_true, ← hn, ← hns]
    simp only [checkBody, Passage.andThen_unit_ok]

end

theorem checkSheetMember_ok_iff (table : PropertyTable) {types : Types} (h : types.scopes ≠ [])
    (n : Node) : (checkSheetMember table types n).result = .ok () ↔ n.isSheetMember = true := by
  cases n with
  | assignment m x e => exact checkAssignment_ok_iff h none m x e
  | rule m ss body =>
    simp only [checkSheetMember, inScope_checkBody, Passage.mapTree]
    exact checkBody_ok_iff table (Selector.textAll ss) types.enter_ne_nil body
  | literal | reference | operation | declaration | ifClause | ifElse | elseClause | sheet
  | foreign => simp [checkSheetMember, Passage.stop, Node.isSheetMember]

theorem checkMembers_ok_iff (table : PropertyTable) {types : Types} (h : types.scopes ≠ [])
    (ns : List Node) :
    (checkMembers table types ns).result = .ok () ↔ ns.all Node.isSheetMember = true := by
  induction ns generalizing types with
  | nil => simp [checkMembers, Passage.done]
  | cons n ns ih =>
    have hc := (checkSheetMember_sameBelow table types n).ne_nil h
    rw [List.all_cons, Bool.and_eq_true, ← checkSheetMember_ok_iff table h n, ← ih hc]
    simp only [checkMembers, Passage.andThen_unit_ok]

/-- The diagnostic that an operation earns; an unknown type on either side earns none. -/
def operationFault (op : Operator) (left right : Option ValueType) (sel : Option String) :
    Option Diagnostic :=
  match left, right with
  | some s, some t => checkOperands op s t sel
  | _, _ => none

def operationResult (op : Operator) (left right : Option ValueType) (sel : Option String) :
    Option ValueType :=
  match left, right with
  | some s, some t =>
    match checkOperands op s t sel with
    | none => some (operationType op s t)
    | some _ => none
  | _, _ => none

theorem infer_operation {types : Types} {sel : Option String} {l r : Node}
    {a b : Option ValueType} (ha : (infer types sel l).result = .ok a)
    (hb : (infer types sel r).result = .ok b) (m : Mark) (op : Operator) :
    infer types sel (.operation m op l r) =
      ⟨.operation (m.fill (operationFault op a b sel)) op (infer types sel l).tree
        (infer types sel r).tree, .ok (operationResult op a b sel)⟩ := by
  simp only [infer, ha, hb]
  cases a with
  | none => simp [operationFault, operationResult]
  | some s =>
    cases b with
    | none => simp [operationFault, operationResult]
    | some t =>
      simp only [operationFault, operationResult]
      cases checkOperands op s t sel <;> simp

theorem checkMember_declaration (table : PropertyTable) {sel : String} {types : Types} {e : Node}
    {t : Option ValueType} (ht : (infer types (some sel) e).result = .ok t) (m : Mark)
    (p : String) :
    checkMember table sel types (.declaration m p e) =
      .done (.declaration (m.fill (checkProperty table p t (some sel))) p
        (infer types (some sel) e).tree) types () := by
  simp only [checkMember, ht]

theorem checkMember_ifClause (table : PropertyTable) {sel : String} {types : Types} {c : Node}
    {t : Option ValueType} (ht : (infer types (some sel) c).result = .ok t) (m : Mark)
    (body : List Node) :
    checkMember table sel types (.ifClause m c body) =
      ⟨.ifClause (m.fill (checkCondition t (some sel))) (infer types (some sel) c).tree
          (checkBody table sel types.enter body).tree,
        types, .enter :: ((checkBody table sel types.enter body).calls ++ [.leave]),
        (checkBody table sel types.enter body).result⟩ := by
  simp only [checkMember, ht, inScope_checkBody, Passage.mapTree]

theorem checkMember_ifElse (table : PropertyTable) {sel : String} {types : Types} {c : Node}
    {t : Option ValueType} (ht : (infer types (some sel) c).result = .ok t) {body : List Node}
    (hb : (checkBody table sel types.enter body).result = .ok ()) (m em : Mark)
    (ebody : List Node) :
    checkMember table sel types (.ifElse m c body em ebody) =
      ⟨.ifElse (m.fill (checkCondition t (some sel))) (infer types (some sel) c).tree
          (checkBody table sel types.enter body).tree em
          (checkBody table sel types.enter ebody).tree,
        types, .enter :: ((checkBody table sel types.enter body).calls ++ [.leave]) ++
          .enter :: ((checkBody table sel types.enter ebody).calls ++ [.leave]),
        (checkBody table sel types.enter ebody).result⟩ := by
  simp only [checkMember, ht, inScope_checkBody, Passage.andThen, hb]

theorem checkSheetMember_rule (table : PropertyTable) (types : Types) (m : Mark)
    (ss : List Selector) (body : List Node) :
    checkSheetMember table types (.rule m ss body) =
      ⟨.rule m ss (checkBody table (Selector.textAll ss) types.enter body).tree, types,
        .enter :: ((checkBody table (Selector.textAll ss) types.enter body).calls ++ [.leave]),
        (checkBody table (Selector.textAll ss) types.enter body).result⟩ := by
  simp only [checkSheetMember, inScope_checkBody, Passage.mapTree]

theorem checkAssignment_eq {types : Types} (h : types.scopes ≠ []) {sel : Option String} {e : Node}
    {t : Option ValueType} (ht : (infer types sel e).result = .ok t) (m : Mark) (x : String) :
    ∃ types', types.bind x t = .ok types' ∧ checkAssignment types sel m x e =
      ⟨.assignment m x (infer types sel e).tree, types', [.bind x t], .ok ()⟩ := by
  obtain ⟨types', hb⟩ := Chain.bind_ok h x t
  refine ⟨types', hb, ?_⟩
  simp only [checkAssignment, ht, Passage.chain_bind hb]

theorem infer_unmarked (types : Types) (sel : Option String) (e : Node) :
    (infer types sel e).tree.unmarked = e.unmarked := by
  cases e with
  | literal m v => rfl
  | reference m x =>
    simp only [infer]
    split <;> rfl
  | operation m op l r =>
    have hl := infer_unmarked types sel l
    have hr := infer_unmarked types sel r
    cases ha : (infer types sel l).result with
    | error f => simp only [infer, ha, Node.unmarked, hl]
    | ok a =>
      cases hb : (infer types sel r).result with
      | error f => simp only [infer, ha, hb, Node.unmarked, hl, hr]
      | ok b =>
        rw [infer_operation ha hb]
        simp only [Node.unmarked, hl, hr]
  | declaration | assignment | ifClause | ifElse | elseClause | rule | sheet | foreign => rfl

theorem checkAssignment_unmarked (types : Types) (sel : Option String) (m : Mark) (x : String)
    (e : Node) :
    (checkAssignment types sel m x e).tree.unmarked = (Node.assignment m x e).unmarked := by
  have he := infer_unmarked types sel e
  cases ht : (infer types sel e).result with
  | error f => simp only [checkAssignment, ht, Passage.stop, Node.unmarked, he]
  | ok t =>
    simp only [checkAssignment, ht, Passage.bind]
    split <;> simp only [Passage.stop, Node.unmarked, he]

mutual

/-- Checking a member changes nothing but slots, also where it stops. -/
theorem checkMember_unmarked (table : PropertyTable) (sel : String) (types : Types) (n : Node) :
    (checkMember table sel types n).tree.unmarked = n.unmarked := by
  cases n with
  | assignment m x e => exact checkAssignment_unmarked types (some sel) m x e
  | declaration m p e =>
    have he := infer_unmarked types (some sel) e
    cases ht : (infer types (some sel) e).result with
    | error f => simp only [checkMember, ht, Passage.stop, Node.unmarked, he]
    | ok t => simp only [checkMember, ht, Passage.done, Node.unmarked, he]
  | ifClause m c body =>
    have hc := infer_unmarked types (some sel) c
    have hb := checkBody_unmarked table sel types.enter body
    cases ht : (infer types (some sel) c).result with
    | error f => simp only [checkMember, ht, Passage.stop, Node.unmarked, hc]
    | ok t =>
      rw [checkMember_ifClause table ht]
      simp only [Node.unmarked, hc, hb]
  | ifElse m c body em ebody =>
    have hc := infer_unmarked types (some sel) c
    have hb := checkBody_unmarked table sel types.enter body
    have he := checkBody_unmarked table sel types.enter ebody
    cases ht : (infer types (some sel) c).result with
    | error f => simp only [checkMember, ht, Passage.stop, Node.unmarked, hc]
    | ok t =>
      simp only [checkMember, ht, inScope_checkBody, Passage.andThen]
      split <;> simp only [Node.unmarked, hc, hb, he]
  | literal | reference | operation | elseClause | rule | sheet | foreign => rfl

theorem checkBody_unmarked (table : PropertyTable) (sel : String) (types : Types)
    (ns : List Node) :
    Node.unmarkedAll (checkBody table sel types ns).tree = Node.unmarkedAll ns := by
  cases ns with
  | nil => rfl
  | cons n ns =>
    have hn := checkMember_unmarked table sel types n
    have hns := checkBody_unmarked table sel (checkMember table sel types n).chain ns
    simp only [checkBody, Passage.andThen]
    split <;> simp only [Node.unmarkedAll, hn, hns]

end

theorem checkMembers_unmarked (table : PropertyTable) (types : Types) (ns : List Node) :
    Node.unmarkedAll (checkMembers table types ns).tree = Node.unmarkedAll ns := by
  induction ns generalizing types with
  | nil => rfl
  | cons n ns ih =>
    have hn : (checkSheetMember table types n).tree.unmarked = n.unmarked := by
      cases n with
      | assignment m x e => exact checkAssignment_unmarked types none m x e
      | rule m ss body =>
        rw [checkSheetMember_rule]
        simp only [Node.unmarked, checkBody_unmarked]
      | literal | reference | operation | declaration | ifClause | ifElse | elseClause | sheet
      | foreign => rfl
    have hns := ih (checkSheetMember table types n).chain
    simp only [checkMembers, Passage.andThen]
    split <;> simp only [Node.unmarkedAll, hn, hns]

end Typing

/-- What is left of a sheet, whether its check ended normally or not. -/
theorem Sheet.check_tree (table : PropertyTable) (s : Sheet) :
    (s.check table).tree =
      ⟨s.mark, (Typing.checkMembers table (Chain.empty .lexical).enter s.members).tree⟩ := by
  simp only [Sheet.check, Typing.inScope_checkMembers, Passage.mapTree]

/-- Checking ends normally on the well-placed sheets and on no others. -/
theorem Sheet.check_ok_iff (table : PropertyTable) (s : Sheet) :
    (s.check table).result = .ok () ↔ s.isWellPlaced = true := by
  simp only [Sheet.check, Typing.inScope_checkMembers, Passage.mapTree]
  exact Typing.checkMembers_ok_iff table (Chain.enter_ne_nil _) s.members

/-- Checking fills slots and changes nothing else, however it ends. -/
theorem Sheet.check_same (table : PropertyTable) (s : Sheet) :
    (s.check table).tree.node.same s.node = true := by
  rw [Sheet.check_tree, Node.same, decide_eq_true_iff]
  simp only [Sheet.node, Node.unmarked, Typing.checkMembers_unmarked]

end StyleLang
