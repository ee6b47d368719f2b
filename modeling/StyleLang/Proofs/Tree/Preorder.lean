import StyleLang.Proofs.Tree.Report

/-!
# The order of a walk

The order in which a walk gives out the nodes of a tree, said in three ways that agree: by recursion on
the tree, by the positions of the nodes, and by what is done with the stack. On the stack the top is the last
entry, so the children of a node are put there from the last to the first. A walk takes as many steps as the
tree has nodes. What is still to come of it is the recursion over the stack read from its top.
-/

namespace StyleLang.Node

open Position

mutual

/-- A node and then what is below it: of an operation the left side before the right one, of a clause the
condition, the body and then the else-clause. A foreign object is a leaf. -/
def preorder : Node → List Node
  | literal m v => [literal m v]
  | reference m x => [reference m x]
  | operation m op l r => operation m op l r :: (l.preorder ++ r.preorder)
  | declaration m p e => declaration m p e :: e.preorder
  | assignment m x e => assignment m x e :: e.preorder
  | ifClause m c body => ifClause m c body :: (c.preorder ++ preorderAll body)
  | ifElse m c body em ebody =>
    ifElse m c body em ebody ::
      (c.preorder ++ (preorderAll body ++ elseClause em ebody :: preorderAll ebody))
  | elseClause m body => elseClause m body :: preorderAll body
  | rule m ss body => rule m ss body :: preorderAll body
  | sheet m members => sheet m members :: preorderAll members
  | foreign t => [foreign t]

def preorderAll : List Node → List Node
  | [] => []
  | n :: ns => n.preorder ++ preorderAll ns

end

theorem preorderAll_append (ns ms : List Node) :
    preorderAll (ns ++ ms) = preorderAll ns ++ preorderAll ms := by
  induction ns with
  | nil => rfl
  | cons n ns ih => rw [List.cons_append, preorderAll, preorderAll, ih, List.append_assoc]

/-- The recursion is the same one for all kinds of nodes. -/
theorem preorder_eq (n : Node) : n.preorder = n :: preorderAll n.children := by
  cases n with
  | literal | reference | foreign => rfl
  | operation m op l r => simp [preorder, preorderAll, children]
  | declaration m p e | assignment m x e => simp [preorder, preorderAll, children]
  | ifClause m c body => rfl
  | ifElse m c body em ebody => simp [preorder, preorderAll, preorderAll_append, children]
  | elseClause | rule | sheet => rfl

example :
    let sum := operation none .add (.reference none "X") (.literal none (.pixel 1))
    let clause := ifElse none (.reference none "B") [.declaration none "width" sum] none
      [.assignment none "X" (.literal none (.scalar 2))]
    clause.preorder.map kindName =
      ["IfClause", "VariableReference", "Declaration", "AddOperation", "VariableReference",
        "PixelLiteral", "ElseClause", "VariableAssignment", "ScalarLiteral"] := rfl

theorem preorderAll_ne_nil {ns : List Node} (h : ns ≠ []) : preorderAll ns ≠ [] := by
  cases ns with
  | nil => exact absurd rfl h
  | cons n ns => simp [preorderAll, preorder_eq]

/-- What is visited from a stack. The top of the stack comes first. -/
theorem visit_eq_preorderAll (stack : List Node) : visit stack = preorderAll stack := by
  fun_induction visit stack with
  | case1 => rfl
  | case2 n stack ih => rw [ih, preorderAll_append, preorderAll, preorder_eq, List.cons_append]

theorem walk_eq_preorder (n : Node) : n.walk = n.preorder := by
  rw [walk, visit_eq_preorderAll, preorderAll, preorderAll, List.append_nil]

theorem length_visit (stack : List Node) : (visit stack).length = sizeAll stack := by
  fun_induction visit stack with
  | case1 => rfl
  | case2 n stack ih =>
    rw [List.length_cons, ih, sizeAll_append, sizeAll, size_eq]
    omega

theorem length_preorder (n : Node) : n.preorder.length = n.size := by
  rw [← walk_eq_preorder, walk, length_visit, sizeAll, sizeAll, Nat.add_zero]

/-- A walk under way: the nodes given out so far, and the stack of those still to be visited. -/
structure Walker where
  given : List Node
  stack : List Node

namespace Walker

variable {w : Walker} {k : Nat}

def start (n : Node) : Walker := ⟨[], [n]⟩

/-- Takes the top off the stack, gives it out and puts its children there, the first of them on top. On an
empty stack the walk is over. -/
def next? (w : Walker) : Option Walker :=
  match w.stack.getLast? with
  | none => none
  | some n => some ⟨w.given ++ [n], w.stack.dropLast ++ n.children.reverse⟩

/-- The walk so many steps later, unless it is over before. -/
def after? : Nat → Walker → Option Walker
  | 0, w => some w
  | k + 1, w => w.next?.bind (after? k)

/-- What the walk has still to give out. -/
def ahead (w : Walker) : List Node := preorderAll w.stack.reverse

theorem next?_push (given rest : List Node) (n : Node) :
    next? ⟨given, rest ++ [n]⟩ = some ⟨given ++ [n], rest ++ n.children.reverse⟩ := by
  simp [next?]

/-- Reversed onto the stack, the children of a node are ahead in their order. -/
theorem ahead_push (given given' rest : List Node) (n : Node) :
    ahead ⟨given, rest ++ [n]⟩ = n :: ahead ⟨given', rest ++ n.children.reverse⟩ := by
  simp [ahead, preorderAll, preorder_eq n, preorderAll_append]

theorem stack_eq_nil (h : w.ahead = []) : w.stack = [] := by
  by_contra hne
  exact preorderAll_ne_nil (mt List.reverse_eq_nil_iff.mp hne) h

/-- A step gives out the first node of those ahead, and there is no step only when none is. -/
theorem next?_cases (w : Walker) :
    (w.next? = none ∧ w.ahead = []) ∨
      ∃ n w', w.next? = some w' ∧ w'.given = w.given ++ [n] ∧ w.ahead = n :: w'.ahead := by
  obtain ⟨given, stack⟩ := w
  rcases List.eq_nil_or_concat stack with rfl | ⟨rest, n, rfl⟩
  · exact Or.inl ⟨rfl, rfl⟩
  · rw [List.concat_eq_append]
    exact Or.inr ⟨n, _, next?_push given rest n, rfl, ahead_push _ _ rest n⟩

/-- After `k` steps a walk has given out the first `k` of the nodes that were ahead. -/
theorem after?_of_le (h : k ≤ w.ahead.length) :
    ∃ w', w.after? k = some w' ∧ w'.given = w.given ++ w.ahead.take k ∧
      w'.ahead = w.ahead.drop k := by
  -- Each step moves one node from what is ahead to what is given, so the walk may begin anywhere.
  induction k generalizing w with
  | zero => exact ⟨w, rfl, by simp, rfl⟩
  | succ k ih =>
    obtain ⟨-, hend⟩ | ⟨n, w₁, hnext, hgiven, hahead⟩ := next?_cases w
    · rw [hend] at h
      cases h
    · have hk : k ≤ w₁.ahead.length := by
        rw [hahead, List.length_cons] at h
        omega
      obtain ⟨w', hafter, hgiven', hahead'⟩ := ih hk
      refine ⟨w', ?_, ?_, ?_⟩
      · rw [after?, hnext]
        exact hafter
      · rw [hgiven', hgiven, hahead, List.take_succ_cons, List.append_assoc, List.singleton_append]
      · rw [hahead', hahead, List.drop_succ_cons]

/-- No walk goes on for longer than there are nodes ahead. -/
theorem after?_of_lt (h : w.ahead.length < k) : w.after? k = none := by
  induction k generalizing w with
  | zero => omega
  | succ k ih =>
    obtain ⟨hnext, -⟩ | ⟨n, w₁, hnext, -, hahead⟩ := next?_cases w
    · rw [after?, hnext]
      rfl
    · have hk : w₁.ahead.length < k := by
        rw [hahead, List.length_cons] at h
        omega
      rw [after?, hnext]
      exact ih hk

theorem ahead_start (n : Node) : (start n).ahead = n.preorder := by
  rw [ahead, start, List.reverse_singleton, preorderAll, preorderAll, List.append_nil]

theorem length_ahead_start (n : Node) : (start n).ahead.length = n.size := by
  rw [ahead_start, length_preorder]

/-- What a walk from a node has given out after `k` steps. -/
theorem given_after? (n : Node) (k : Nat) :
    ((start n).after? k).map given = if k ≤ n.size then some (n.preorder.take k) else none := by
  have hlen := length_ahead_start n
  by_cases hk : k ≤ n.size
  · obtain ⟨w, hafter, hgiven, -⟩ := after?_of_le (hlen.symm ▸ hk)
    rw [if_pos hk, hafter, Option.map_some, hgiven, ahead_start]
    rfl
  · rw [if_neg hk, after?_of_lt (by omega)]
    rfl

/-- After as many steps as the tree has nodes nothing is left on the stack. -/
theorem after?_size (n : Node) : (start n).after? n.size = some ⟨n.preorder, []⟩ := by
  have hlen := length_ahead_start n
  obtain ⟨w, hafter, hgiven, hahead⟩ := after?_of_le (Nat.le_of_eq hlen.symm)
  have hstack : w.stack = [] := by
    apply stack_eq_nil
    rw [hahead, List.drop_of_length_le (Nat.le_of_eq hlen)]
  have hall : w.given = n.preorder := by
    rw [hgiven, List.take_of_length_le (Nat.le_of_eq hlen), ahead_start]
    rfl
  rw [hafter, ← hstack, ← hall]

end Walker

/-- A walk with a stack ends, and gives out the nodes of the tree in the order of the recursion, each as often
as it stands in the tree. So what a tree reports is what its root reports, and then its children. -/
theorem walk_recursive (n : Node) :
    (∀ k, ((Walker.start n).after? k).map Walker.given =
        if k ≤ n.size then some (n.preorder.take k) else none) ∧
      (Walker.start n).after? n.size = some ⟨n.walk, []⟩ ∧
      n.walk = n.preorder ∧ n.walk = n :: n.children.flatMap walk ∧
      InOrder (fun p d => n.at? p = some d) n.walk ∧
      n.diagnostics = n.mark.toList ++ n.children.flatMap diagnostics ∧
      (n.hasErrors = true ↔ n.diagnostics ≠ []) := by
  have hend := Walker.after?_size n
  rw [← walk_eq_preorder] at hend
  have hfilled : n.hasErrors = true ↔ n.diagnostics ≠ [] := by
    rw [Ne, diagnostics_eq_nil_iff, Bool.not_eq_false]
  exact ⟨Walker.given_after? n, hend, walk_eq_preorder n, walk_eq n, walk_inOrder n, diagnostics_eq n,
    hfilled⟩

end StyleLang.Node
