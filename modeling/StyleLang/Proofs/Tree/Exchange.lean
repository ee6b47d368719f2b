import StyleLang.Proofs.Tree.Omission

/-!
# Trees with a branch exchanged

A tree with what stands at a position changed, and the changes of an if-clause that leave its condition
and one of its branches alone.
-/

namespace StyleLang

namespace Node

/-- The tree with what stands at the position changed. -/
def modifyAt (f : Node → Node) : Position → Node → Node
  | [], n => f n
  | k :: p, n => n.withChildren (n.children.modify k (modifyAt f p))

theorem modifyAt_append (f : Node → Node) (p q : Position) :
    modifyAt f (p ++ q) = modifyAt (modifyAt f q) p := by
  induction p with
  | nil => rfl
  | cons k p ih =>
    funext n
    rw [List.cons_append, modifyAt, ih, modifyAt]

/-- The if-clause with another else-clause, or with none. -/
def withElse (other : Option (Mark × List Node)) : Node → Node
  | ifClause m c body | ifElse m c body _ _ =>
    match other with
    | none => ifClause m c body
    | some (em, ebody) => ifElse m c body em ebody
  | n => n

/-- The if-clause with another body. -/
def withBody (body : List Node) : Node → Node
  | ifClause m c _ => ifClause m c body
  | ifElse m c _ em ebody => ifElse m c body em ebody
  | n => n

/-- The changes of an if-clause that exchange the branch for the other value of its condition: the
else-clause, which may be absent, if the condition is true, and the body if it is false. -/
inductive ExchangesOther : Bool → (Node → Node) → Prop
  | elseClause (other : Option (Mark × List Node)) : ExchangesOther true (withElse other)
  | body (body : List Node) : ExchangesOther false (withBody body)

theorem modify_split (before after : List Node) (n : Node) (f : Node → Node) :
    (before ++ n :: after).modify before.length f = before ++ f n :: after := by
  induction before with
  | nil => rfl
  | cons m before ih => rw [List.cons_append, List.length_cons, List.modify_succ_cons, ih, List.cons_append]

theorem modify_eq_set_of_getElem? {ns : List Node} {k : Nat} {n : Node} (hn : ns[k]? = some n)
    (f : Node → Node) : ns.modify k f = ns.set k (f n) := by
  rw [List.modify_eq_set_getElem?, hn]
  rfl

theorem withChildren_ifElse (m em em' : Mark) (c c' : Node) (body ebody body' ebody' : List Node) :
    (ifElse m c body em ebody).withChildren (c' :: (body' ++ [elseClause em' ebody'])) =
      .ifElse m c' body' em' ebody' := by
  simp [withChildren]

section

variable (f : Node → Node) (m : Mark)

theorem modifyAt_rule (ss : List Selector) (body : List Node) (k : Nat) (p : Position) :
    (rule m ss body).modifyAt f (k :: p) = .rule m ss (body.modify k (modifyAt f p)) := rfl

theorem modifyAt_elseClause (body : List Node) (k : Nat) (p : Position) :
    (elseClause m body).modifyAt f (k :: p) = .elseClause m (body.modify k (modifyAt f p)) := rfl

theorem modifyAt_ifClause (c : Node) (body : List Node) (k : Nat) (p : Position) :
    (ifClause m c body).modifyAt f ((1 + k) :: p) = .ifClause m c (body.modify k (modifyAt f p)) := by
  rw [modifyAt, children, Nat.add_comm, List.modify_succ_cons]
  rfl

theorem modifyAt_ifElse_body (c : Node) {body : List Node} (em : Mark) (ebody : List Node) {k : Nat}
    (hk : k < body.length) (p : Position) :
    (ifElse m c body em ebody).modifyAt f ((1 + k) :: p) =
      .ifElse m c (body.modify k (modifyAt f p)) em ebody := by
  obtain ⟨before, after, hbody, rfl⟩ := exists_split (List.getElem?_eq_getElem hk)
  generalize body[before.length] = n at hbody
  subst hbody
  have hsplit : ∀ n' : Node, before ++ n' :: after ++ [elseClause em ebody] =
      before ++ n' :: (after ++ [elseClause em ebody]) := by
    intro n'
    rw [List.append_assoc, List.cons_append]
  rw [modifyAt, children, Nat.add_comm, List.cons_append, List.modify_succ_cons, hsplit, modify_split,
    modify_split, ← hsplit, withChildren_ifElse]

theorem modifyAt_ifElse_elseBody (c : Node) (body : List Node) (em : Mark) (ebody : List Node) (k : Nat)
    (p : Position) :
    (ifElse m c body em ebody).modifyAt f ((body.length + 1) :: k :: p) =
      .ifElse m c body em (ebody.modify k (modifyAt f p)) := by
  rw [modifyAt, children, List.cons_append, List.modify_succ_cons, modify_split, modifyAt_elseClause,
    withChildren_ifElse]

end

end Node

/-- The sheet with what stands at the position changed. -/
def Sheet.modifyAt (f : Node → Node) (p : Position) (s : Sheet) : Sheet :=
  match p with
  | [] => s
  | k :: p => ⟨s.mark, s.members.modify k (Node.modifyAt f p)⟩

end StyleLang
