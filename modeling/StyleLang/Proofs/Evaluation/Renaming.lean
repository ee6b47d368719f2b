import StyleLang.Evaluation.Evaluate
import StyleLang.Proofs.Scope.Renaming

/-!
# Evaluation and the names of variables

Evaluation of a sheet with new names goes the way of the evaluation of the sheet: what it leaves and how it
ends is the same with the new names. This asks only that different names stay different, not that the sheet
is well placed or that its names are bound.
-/

namespace StyleLang

namespace Evaluation

open Node Passage

variable {r : String → String}

theorem fold_renamed (hr : Function.Injective r) (values : Values) (e : Node) :
    fold (values.renamed r) (e.renamed r) = (fold values e).mapError (Fault.renamed r) := by
  cases e with
  | reference m x =>
    simp only [Node.renamed, fold, Chain.resolve_renamed hr]
    cases values.resolve x <;> rfl
  | operation m op left right =>
    simp only [Node.renamed, fold, fold_renamed hr values left, fold_renamed hr values right]
    cases fold values left with
    | error f => rfl
    | ok a =>
      cases fold values right with
      | error f => rfl
      | ok b =>
        simp only [mapError_ok, Constant.node, combine]
        cases combine? op a.value b.value <;> rfl
  | _ => rfl

theorem bindValue_renamed (hr : Function.Injective r) (values : Values) (m : Mark) (x : String)
    (e : Node) :
    bindValue (Node.assignment m (r x) (e.renamed r)) (values.renamed r) (r x) (e.renamed r) =
      (bindValue (Node.assignment m x e) values x e).renamed r (Node.renamed r) id := by
  simp only [bindValue, fold_renamed hr]
  cases fold values e with
  | error f => rfl
  | ok c => exact bind_renamed (f := Node.renamed r) (Node.assignment m x e) values x c

mutual

theorem flattenMember_renamed (hr : Function.Injective r) (values : Values) (n : Node) :
    flattenMember (values.renamed r) (n.renamed r) =
      (flattenMember values n).renamed r (Node.renamed r) (renamedAll r) := by
  cases n with
  | declaration m p e =>
    simp only [Node.renamed, flattenMember, fold_renamed hr]
    cases fold values e <;> rfl
  | assignment m x e => exact mapResult_renamed (bindValue_renamed hr values m x e) fun _ => rfl
  | ifClause m c body =>
    have hbody : ∀ d : Values, flatten (d.renamed r) (renamedAll r body) =
        (flatten d body).renamed r (renamedAll r) (renamedAll r) := fun d => flatten_renamed hr d body
    simp only [Node.renamed, flattenMember, fold_renamed hr]
    cases fold values c with
    | error f => rfl
    | ok condition =>
      obtain ⟨m', v⟩ := condition
      cases v with
      | bool b =>
        cases b with
        | true => exact mapTree_renamed (inScope_renamed values hbody) fun _ => rfl
        | false => exact inScope_renamed values fun _ => rfl
      | _ => rfl
  | ifElse m c body em ebody =>
    have hbody : ∀ d : Values, flatten (d.renamed r) (renamedAll r body) =
        (flatten d body).renamed r (renamedAll r) (renamedAll r) := fun d => flatten_renamed hr d body
    have helse : ∀ d : Values, flatten (d.renamed r) (renamedAll r ebody) =
        (flatten d ebody).renamed r (renamedAll r) (renamedAll r) := fun d => flatten_renamed hr d ebody
    simp only [Node.renamed, flattenMember, fold_renamed hr]
    cases fold values c with
    | error f => rfl
    | ok condition =>
      obtain ⟨m', v⟩ := condition
      cases v with
      | bool b =>
        cases b with
        | true => exact mapTree_renamed (inScope_renamed values hbody) fun _ => rfl
        | false => exact mapTree_renamed (inScope_renamed values helse) fun _ => rfl
      | _ => rfl
  | _ => rfl

theorem flatten_renamed (hr : Function.Injective r) (values : Values) (ns : List Node) :
    flatten (values.renamed r) (renamedAll r ns) =
      (flatten values ns).renamed r (renamedAll r) (renamedAll r) := by
  cases ns with
  | nil => rfl
  | cons n ns =>
    refine andThen_renamed (flattenMember_renamed hr values n) rfl (fun d here => ?_) fun _ _ => rfl
    exact mapResult_renamed (flatten_renamed hr d ns) fun others => (renamedAll_append r here others).symm

end

theorem evaluateMember_renamed (hr : Function.Injective r) (values : Values) (n : Node) :
    evaluateMember (values.renamed r) (n.renamed r) =
      (evaluateMember values n).renamed r (Node.renamed r) (renamedAll r) := by
  cases n with
  | assignment m x e => exact mapResult_renamed (bindValue_renamed hr values m x e) fun _ => rfl
  | rule m ss body =>
    have hflat : (inScope (values.renamed r) fun opened => flatten opened (renamedAll r body)) =
        (inScope values fun opened => flatten opened body).renamed r (renamedAll r) (renamedAll r) :=
      inScope_renamed values fun d => flatten_renamed hr d body
    simp only [Node.renamed, evaluateMember, hflat]
    obtain ⟨tree, chain, calls, result⟩ := inScope values fun opened => flatten opened body
    cases result <;> rfl
  | _ => rfl

theorem evaluateMembers_renamed (hr : Function.Injective r) (values : Values) (ns : List Node) :
    evaluateMembers (values.renamed r) (renamedAll r ns) =
      (evaluateMembers values ns).renamed r (renamedAll r) (renamedAll r) := by
  induction ns generalizing values with
  | nil => rfl
  | cons n ns ih =>
    refine andThen_renamed (evaluateMember_renamed hr values n) rfl (fun d here => ?_) fun _ _ => rfl
    exact mapResult_renamed (ih d) fun others => (renamedAll_append r here others).symm

end Evaluation

/-- The evaluation of a sheet with new names is the evaluation of the sheet, with the new names. -/
theorem Sheet.evaluate_renamed {r : String → String} (hr : Function.Injective r) (s : Sheet) :
    (s.renamed r).evaluate = s.evaluate.renamed r (Sheet.renamed r) id := by
  have hmembers : (Passage.inScope (Chain.empty .snapshot) fun values =>
      Evaluation.evaluateMembers values (Node.renamedAll r s.members)) =
      (Passage.inScope (Chain.empty .snapshot) fun values =>
        Evaluation.evaluateMembers values s.members).renamed r (Node.renamedAll r) (Node.renamedAll r) :=
    Passage.inScope_renamed (r := r) (Chain.empty .snapshot) fun values =>
      Evaluation.evaluateMembers_renamed hr values s.members
  simp only [evaluate, renamed, hmembers]
  obtain ⟨tree, chain, calls, result⟩ := Passage.inScope (Chain.empty .snapshot) fun values =>
    Evaluation.evaluateMembers values s.members
  cases result <;> rfl

end StyleLang
