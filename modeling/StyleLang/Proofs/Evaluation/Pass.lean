import StyleLang.Evaluation.Evaluate
import StyleLang.Proofs.Scope.Chain

/-!
# The course of an evaluation

What evaluation does to its chain: a member of a body leaves the chain as it was, but for the one name
that an assignment binds, so a branch that is taken binds nothing outside itself.
-/

namespace StyleLang.Evaluation

theorem bindValue_sameBelow {τ : Type} (tree : τ) (values : Values) (x : String) (e : Node) :
    values.SameBelow (bindValue tree values x e).chain := by
  unfold bindValue
  split
  · exact .refl values
  · exact Passage.sameBelow_bind tree values x _

/-- An assignment stands as it was, whether its value is bound or not. -/
theorem bindValue_tree {τ : Type} (tree : τ) (values : Values) (x : String) (e : Node) :
    (bindValue tree values x e).tree = tree := by
  unfold bindValue
  split
  · rfl
  · unfold Passage.bind
    split <;> rfl

mutual

theorem flattenMember_sameBelow (values : Values) (n : Node) :
    values.SameBelow (flattenMember values n).chain := by
  cases n with
  | declaration m p e =>
    simp only [flattenMember]
    split <;> exact .refl values
  | assignment m x e =>
    simp only [flattenMember, Passage.mapResult]
    exact bindValue_sameBelow _ values x e
  | ifClause m c body =>
    simp only [flattenMember]
    split
    · exact .refl values
    · exact Passage.sameBelow_inScope (flatten_sameBelow values.enter body)
    · exact Passage.sameBelow_inScope (.refl values.enter)
    · exact .refl values
  | ifElse m c body em ebody =>
    simp only [flattenMember]
    split
    · exact .refl values
    · exact Passage.sameBelow_inScope (flatten_sameBelow values.enter body)
    · exact Passage.sameBelow_inScope (flatten_sameBelow values.enter ebody)
    · exact .refl values
  | literal | reference | operation | elseClause | rule | sheet | foreign => exact .refl values

theorem flatten_sameBelow (values : Values) (ns : List Node) :
    values.SameBelow (flatten values ns).chain := by
  cases ns with
  | nil => exact .refl values
  | cons n ns =>
    exact Passage.sameBelow_andThen (flattenMember_sameBelow values n)
      fun d _ => flatten_sameBelow d ns

end

/-- A branch or body that is flattened in a scope of its own. -/
theorem inScope_flatten (values : Values) (ns : List Node) :
    (Passage.inScope values fun opened => flatten opened ns) =
      { flatten values.enter ns with
        chain := values
        calls := .enter :: ((flatten values.enter ns).calls ++ [.leave]) } :=
  Passage.inScope_eq (flatten_sameBelow values.enter ns)

theorem flatten_eq_gather (values : Values) (ns : List Node) :
    flatten values ns = Passage.gather flattenMember values ns := by
  induction ns generalizing values with
  | nil => rfl
  | cons n ns ih => simp only [flatten, Passage.gather, ih]

theorem evaluateMember_sameBelow (values : Values) (n : Node) :
    values.SameBelow (evaluateMember values n).chain := by
  cases n with
  | assignment m x e =>
    simp only [evaluateMember, Passage.mapResult]
    exact bindValue_sameBelow _ values x e
  | rule m ss body =>
    simp only [evaluateMember, inScope_flatten]
    split <;> exact .refl values
  | literal | reference | operation | declaration | ifClause | ifElse | elseClause | sheet
  | foreign => exact .refl values

theorem evaluateMembers_eq_gather (values : Values) (ns : List Node) :
    evaluateMembers values ns = Passage.gather evaluateMember values ns := by
  induction ns generalizing values with
  | nil => rfl
  | cons n ns ih => simp only [evaluateMembers, Passage.gather, ih]

theorem evaluateMembers_sameBelow (values : Values) (ns : List Node) :
    values.SameBelow (evaluateMembers values ns).chain := by
  rw [evaluateMembers_eq_gather]
  exact Passage.gather_sameBelow evaluateMember_sameBelow values ns

theorem inScope_evaluateMembers (values : Values) (ns : List Node) :
    (Passage.inScope values fun opened => evaluateMembers opened ns) =
      { evaluateMembers values.enter ns with
        chain := values
        calls := .enter :: ((evaluateMembers values.enter ns).calls ++ [.leave]) } :=
  Passage.inScope_eq (evaluateMembers_sameBelow values.enter ns)

theorem evaluate_of_members {s : Sheet} {out : List Node}
    (h : (evaluateMembers (Chain.empty .snapshot).enter s.members).result = .ok out) :
    s.evaluate.result = .ok () ∧ s.evaluate.tree = ⟨s.mark, out⟩ := by
  simp only [Sheet.evaluate, inScope_evaluateMembers, h]
  exact ⟨trivial, trivial⟩

/-- An evaluation that ends normally leaves what its members come to. -/
theorem members_of_evaluate {s : Sheet} (h : s.evaluate.result = .ok ()) :
    ∃ out, (evaluateMembers (Chain.empty .snapshot).enter s.members).result = .ok out ∧
      s.evaluate.tree = ⟨s.mark, out⟩ := by
  cases hok : (evaluateMembers (Chain.empty .snapshot).enter s.members).result with
  | error f => simp [Sheet.evaluate, inScope_evaluateMembers, hok] at h
  | ok out => exact ⟨out, rfl, (evaluate_of_members hok).2⟩

end StyleLang.Evaluation
