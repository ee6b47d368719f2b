import StyleLang.Proofs.Scope.Renaming
import StyleLang.Proofs.Typing.Slots

/-!
# Checking and the names of variables

The check of a sheet with new names goes the way of the check of the sheet: it fills the same slots with the
same diagnostics, but that a name which is not defined is reported by its new name. This asks only that
different names stay different. Slots are compared on well-placed sheets whose slots were empty before.
-/

namespace StyleLang

theorem Diagnostic.renamed_undefined (r : String → String) (x : String) (sel : Option String) :
    (Typing.undefinedVariable x sel).renamed r x = Typing.undefinedVariable (r x) sel := if_pos rfl

namespace Typing

open Node Passage

variable {r : String → String}

theorem infer_renamed (hr : Function.Injective r) (types : Types) (sel : Option String) (e : Node) :
    infer (types.renamed r) sel (e.renamed r) = ⟨(infer types sel e).tree.renamed r,
      (infer types sel e).result.mapError (Fault.renamed r)⟩ := by
  cases e with
  | reference m x =>
    simp only [Node.renamed, infer, Chain.resolve_renamed hr]
    cases types.resolve x with
    | some t => rfl
    | none =>
      cases m with
      | some d => rfl
      | none =>
        show Inferred.mk (.reference (some (undefinedVariable (r x) sel)) (r x)) (.ok none) = _
        rw [← Diagnostic.renamed_undefined]
        rfl
  | operation m op left right =>
    simp only [Node.renamed, infer, infer_renamed hr types sel left, infer_renamed hr types sel right]
    cases (infer types sel left).result with
    | error f => rfl
    | ok a =>
      cases (infer types sel right).result with
      | error f => rfl
      | ok b =>
        cases a with
        | none => rfl
        | some a =>
          cases b with
          | none => rfl
          | some b =>
            simp only [mapError_ok]
            cases checkOperands op a b sel <;> rfl
  | _ => rfl

theorem checkAssignment_renamed (hr : Function.Injective r) (types : Types) (sel : Option String)
    (m : Mark) (x : String) (e : Node) :
    checkAssignment (types.renamed r) sel m (r x) (e.renamed r) =
      (checkAssignment types sel m x e).renamed r (Node.renamed r) id := by
  simp only [checkAssignment, infer_renamed hr]
  cases (infer types sel e).result with
  | error f => rfl
  | ok t =>
    exact bind_renamed (f := Node.renamed r) (Node.assignment m x (infer types sel e).tree) types x t

mutual

theorem checkMember_renamed (hr : Function.Injective r) (table : PropertyTable) (sel : String)
    (types : Types) (n : Node) :
    checkMember table sel (types.renamed r) (n.renamed r) =
      (checkMember table sel types n).renamed r (Node.renamed r) id := by
  cases n with
  | declaration m p e =>
    simp only [Node.renamed, checkMember, infer_renamed hr]
    cases (infer types (some sel) e).result <;> rfl
  | assignment m x e => exact checkAssignment_renamed hr types (some sel) m x e
  | ifClause m c body =>
    have hbody : ∀ d : Types, checkBody table sel (d.renamed r) (renamedAll r body) =
        (checkBody table sel d body).renamed r (renamedAll r) id :=
      fun d => checkBody_renamed hr table sel d body
    simp only [Node.renamed, checkMember, infer_renamed hr]
    cases (infer types (some sel) c).result with
    | error f => rfl
    | ok t => exact mapTree_renamed (inScope_renamed types hbody) fun _ => rfl
  | ifElse m c body em ebody =>
    have hbody : ∀ d : Types, checkBody table sel (d.renamed r) (renamedAll r body) =
        (checkBody table sel d body).renamed r (renamedAll r) id :=
      fun d => checkBody_renamed hr table sel d body
    have helse : ∀ d : Types, checkBody table sel (d.renamed r) (renamedAll r ebody) =
        (checkBody table sel d ebody).renamed r (renamedAll r) id :=
      fun d => checkBody_renamed hr table sel d ebody
    simp only [Node.renamed, checkMember, infer_renamed hr]
    cases (infer types (some sel) c).result with
    | error f => rfl
    | ok t =>
      exact andThen_renamed (inScope_renamed types hbody) rfl (fun d _ => inScope_renamed d helse)
        fun _ _ => rfl
  | _ => rfl

theorem checkBody_renamed (hr : Function.Injective r) (table : PropertyTable) (sel : String)
    (types : Types) (ns : List Node) :
    checkBody table sel (types.renamed r) (renamedAll r ns) =
      (checkBody table sel types ns).renamed r (renamedAll r) id := by
  cases ns with
  | nil => rfl
  | cons n ns =>
    exact andThen_renamed (checkMember_renamed hr table sel types n) rfl
      (fun d _ => checkBody_renamed hr table sel d ns) fun _ _ => rfl

end

theorem checkSheetMember_renamed (hr : Function.Injective r) (table : PropertyTable) (types : Types)
    (n : Node) :
    checkSheetMember table (types.renamed r) (n.renamed r) =
      (checkSheetMember table types n).renamed r (Node.renamed r) id := by
  cases n with
  | assignment m x e => exact checkAssignment_renamed hr types none m x e
  | rule m ss body =>
    exact mapTree_renamed (inScope_renamed types fun d => checkBody_renamed hr table _ d body) fun _ => rfl
  | _ => rfl

theorem checkMembers_renamed (hr : Function.Injective r) (table : PropertyTable) (types : Types)
    (ns : List Node) :
    checkMembers table (types.renamed r) (renamedAll r ns) =
      (checkMembers table types ns).renamed r (renamedAll r) id := by
  induction ns generalizing types with
  | nil => rfl
  | cons n ns ih =>
    exact andThen_renamed (checkSheetMember_renamed hr table types n) rfl (fun d _ => ih d) fun _ _ => rfl

/-- How the slot of a node compares with that of the node with new names: it is the same, but that a name
which is not defined is reported by its new name. -/
inductive SlotRenamed (r : String → String) : Mark → Mark → Prop
  | empty : SlotRenamed r none none
  | undefined (x : String) (sel : Option String) :
      SlotRenamed r (some (undefinedVariable x sel)) (some (undefinedVariable (r x) sel))
  | other {d : Diagnostic} (h : d.rule ≠ "undefined_variable") : SlotRenamed r (some d) (some d)

/-- Only a reference earns the report of a name. -/
theorem rule_of_earns {table : PropertyTable} {root n : Node} {p : Position} {d : Diagnostic}
    (hn : root.at? p = some n) (href : ∀ m x, n ≠ .reference m x) (h : Earns table root p d) :
    d.rule ≠ "undefined_variable" := by
  cases h with
  | undefined h => exact absurd (Option.some.inj (hn.symm.trans h)) (href _ _)
  | operands h hl hr hd => cases hd <;> simp
  | condition | property => simp

end Typing

namespace Sheet

variable {r : String → String}

/-- The check of a sheet with new names is the check of the sheet, with the new names. -/
theorem check_renamed (hr : Function.Injective r) (table : PropertyTable) (s : Sheet) :
    (s.renamed r).check table = (s.check table).renamed r (Sheet.renamed r) id := by
  have hmembers : (Passage.inScope (Chain.empty .lexical) fun types =>
      Typing.checkMembers table types (Node.renamedAll r s.members)) =
      (Passage.inScope (Chain.empty .lexical) fun types =>
        Typing.checkMembers table types s.members).renamed r (Node.renamedAll r) id :=
    Passage.inScope_renamed (r := r) (Chain.empty .lexical) fun types =>
      Typing.checkMembers_renamed hr table types s.members
  exact Passage.mapTree_renamed hmembers fun _ => rfl

theorem check_ok_renamed (hr : Function.Injective r) {table : PropertyTable} {s : Sheet}
    (h : (s.check table).result = .ok ()) : ((s.renamed r).check table).result = .ok () := by
  rw [check_renamed hr]
  show ((s.check table).result.map id).mapError (Fault.renamed r) = .ok ()
  rw [h]
  rfl

/-- What is well placed is seen by a check, and so it does not depend on the names. -/
theorem isWellPlaced_renamed (hr : Function.Injective r) {s : Sheet} (hw : s.isWellPlaced = true) :
    (s.renamed r).isWellPlaced = true :=
  (check_ok_iff .builtin _).mp (check_ok_renamed hr ((check_ok_iff .builtin s).mpr hw))

theorem check_slot_renamed {table : PropertyTable} {s : Sheet} (hw : s.isWellPlaced = true)
    (hs : s.node.hasErrors = false) {p : Position} {n : Node}
    (hn : (s.check table).tree.node.at? p = some n) :
    Typing.SlotRenamed r n.mark (n.renamed r).mark := by
  -- The node as it was before the check, with an empty slot.
  obtain ⟨n₀, hn₀, hsame⟩ := Node.at?_of_unmarked_eq (s.check_unmarked table) hn
  obtain ⟨n', d, hn', hmark, hearns⟩ := Typing.check_mark_at table hw hn₀
  obtain rfl := Option.some.inj (hn'.symm.trans hn)
  rw [Node.mark_at? hs hn₀, Mark.none_fill] at hmark
  cases d with
  | none =>
    rw [hmark, Node.mark_renamed_eq_none r hmark]
    exact .empty
  | some d =>
    have hd := (hearns d).mp rfl
    by_cases href : ∃ m x, n' = .reference m x
    · obtain ⟨m, x, rfl⟩ := href
      obtain ⟨m₀, hn₀⟩ := Node.reference_of_unmarked_eq (s.check_unmarked table) hn
      obtain ⟨-, rfl⟩ := (Typing.earns_reference hn₀).mp hd
      obtain rfl : m = _ := hmark
      show Typing.SlotRenamed r _ (some (Diagnostic.renamed r x _))
      rw [Diagnostic.renamed_undefined]
      exact .undefined x _
    · have href : ∀ m x, n' ≠ .reference m x := fun m x h => href ⟨m, x, h⟩
      have href₀ : ∀ m x, n₀ ≠ .reference m x := by
        intro m x h
        obtain ⟨m', hn''⟩ := Node.reference_of_unmarked_eq (s.check_unmarked table).symm (h ▸ hn₀)
        exact href m' x (Option.some.inj (hn.symm.trans hn''))
      rw [Node.mark_renamed r href, hmark]
      exact .other (Typing.rule_of_earns hn₀ href₀ hd)

/-- The same slots are filled, and with the same but for the names. -/
theorem check_slots_renamed (hr : Function.Injective r) (table : PropertyTable) {s : Sheet}
    (hw : s.isWellPlaced = true) (hs : s.node.hasErrors = false) (p : Position) :
    Option.Rel (fun n n' => Typing.SlotRenamed r n.mark n'.mark) ((s.check table).tree.node.at? p)
      (((s.renamed r).check table).tree.node.at? p) := by
  have htree : ((s.renamed r).check table).tree.node = (s.check table).tree.node.renamed r := by
    rw [check_renamed hr]
    rfl
  rw [htree, Node.at?_renamed]
  cases hn : (s.check table).tree.node.at? p with
  | none => exact .none
  | some n => exact .some (check_slot_renamed hw hs hn)

end Sheet

end StyleLang
