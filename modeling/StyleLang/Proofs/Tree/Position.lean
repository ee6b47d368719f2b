import Mathlib.Data.List.Lex
import StyleLang.Node.Equality

/-!
# Positions in a tree

A position is the way down from a node, as the number of a child at each step. Children are numbered
in document order, so of two positions that part, the one with the smaller number at the parting is
left completely before the other is come to. Which nodes are members of a block is said by `block?`
alone: the condition of an if-clause and its else-clause are children, but no members.
-/

namespace StyleLang

abbrev Position := List Nat

namespace Position

/-- The node at `q`, with all that is below it, stands before the node at `p`. -/
def EndsBefore (q p : Position) : Prop :=
  ∃ b i j r s, q = b ++ i :: r ∧ p = b ++ j :: s ∧ i < j

theorem endsBefore_sibling (b : Position) {i j : Nat} (r s : Position) (h : i < j) :
    EndsBefore (b ++ i :: r) (b ++ j :: s) :=
  ⟨b, i, j, r, s, rfl, rfl, h⟩

theorem endsBefore_of_siblings {b q p : Position} {i j : Nat} (hq : b ++ [i] <+: q)
    (hp : b ++ [j] <+: p) (h : i < j) : EndsBefore q p := by
  obtain ⟨r, rfl⟩ := hq
  obtain ⟨s, rfl⟩ := hp
  rw [List.append_assoc, List.append_assoc]
  exact endsBefore_sibling b r s h

theorem EndsBefore.lt {q p : Position} (h : EndsBefore q p) : q < p := by
  obtain ⟨b, i, j, r, s, rfl, rfl, hlt⟩ := h
  exact List.append_left_lt (List.cons_lt_cons_iff.mpr (Or.inl hlt))

theorem EndsBefore.asymm {q p : Position} (h : EndsBefore q p) : ¬ EndsBefore p q :=
  fun h' => lt_asymm h.lt h'.lt

/-- Neither of the two stands below the other. -/
theorem EndsBefore.not_isPrefix {q p : Position} (h : EndsBefore q p) : ¬ q <+: p ∧ ¬ p <+: q := by
  obtain ⟨b, i, j, r, s, rfl, rfl, hlt⟩ := h
  constructor
  · rintro ⟨t, ht⟩
    simp only [List.append_assoc, List.append_cancel_left_eq, List.cons_append,
      List.cons.injEq] at ht
    omega
  · rintro ⟨t, ht⟩
    simp only [List.append_assoc, List.append_cancel_left_eq, List.cons_append,
      List.cons.injEq] at ht
    omega

/-- Of two siblings' descendants, the one that ends before the other stands below the sibling with the
smaller number. -/
theorem EndsBefore.lt_of_siblings {b : Position} {i j : Nat} {s : Position}
    (h : EndsBefore (b ++ [i]) (b ++ j :: s)) : i < j := by
  obtain ⟨c, i', j', r', s', hq, hp, hlt⟩ := h
  rcases List.append_eq_append_iff.mp hq with ⟨d, rfl, hd⟩ | ⟨d, rfl, hd⟩
  · cases d with
    | nil =>
      simp only [List.nil_append, List.cons.injEq] at hd
      simp only [List.append_nil, List.append_cancel_left_eq, List.cons.injEq] at hp
      omega
    | cons k d =>
      have hlen := congrArg List.length hd
      simp at hlen
  · cases d with
    | nil =>
      simp only [List.nil_append, List.cons.injEq] at hd
      simp only [List.append_nil, List.append_cancel_left_eq, List.cons.injEq] at hp
      omega
    | cons k d =>
      simp only [List.cons_append, List.cons.injEq] at hd
      simp only [List.append_assoc, List.append_cancel_left_eq, List.cons_append,
        List.cons.injEq] at hp
      omega

theorem EndsBefore.append_right {q p : Position} (h : EndsBefore q p) (r : Position) :
    EndsBefore q (p ++ r) := by
  obtain ⟨b, i, j, u, v, rfl, rfl, hlt⟩ := h
  exact ⟨b, i, j, u, v ++ r, rfl, by simp, hlt⟩

end Position

namespace Node

/-- The node at a position. -/
def at? : Node → Position → Option Node
  | n, [] => some n
  | n, k :: p => n.children[k]?.bind fun c => c.at? p

@[simp] theorem at?_nil (n : Node) : n.at? [] = some n := rfl

theorem at?_append (n : Node) (p q : Position) : n.at? (p ++ q) = (n.at? p).bind (·.at? q) := by
  induction p generalizing n with
  | nil => rfl
  | cons k p ih =>
    simp only [List.cons_append, at?]
    cases n.children[k]? with
    | none => rfl
    | some c => exact ih c

theorem at?_child {root n : Node} {p : Position} (h : root.at? p = some n) (k : Nat) :
    root.at? (p ++ [k]) = n.children[k]? := by
  rw [at?_append, h]
  cases hk : n.children[k]? <;> simp [at?, hk]

/-- A change of nodes that goes on to their children is one of the nodes at all positions. -/
theorem at?_map {f : Node → Node} (hf : ∀ n, (f n).children = n.children.map f) (n : Node) (p : Position) :
    (f n).at? p = (n.at? p).map f := by
  induction p generalizing n with
  | nil => rfl
  | cons k p ih =>
    rw [at?, at?, hf, List.getElem?_map]
    cases n.children[k]? with
    | none => rfl
    | some c => exact ih c

/-- What stands below the root stands at a child of something. -/
theorem at?_snoc {root n : Node} {p : Position} {k : Nat} (h : root.at? (p ++ [k]) = some n) :
    ∃ parent, root.at? p = some parent ∧ parent.children[k]? = some n := by
  rw [at?_append] at h
  obtain ⟨parent, hp, hk⟩ := Option.bind_eq_some_iff.mp h
  refine ⟨parent, hp, ?_⟩
  cases hc : parent.children[k]? <;> simp_all [at?]

/-- The members of the block that a node opens, and the number of the first of them among the
children. -/
def block? : Node → Option (Nat × List Node)
  | ifClause _ _ body => some (1, body)
  | ifElse _ _ body _ _ => some (1, body)
  | elseClause _ body => some (0, body)
  | rule _ _ body => some (0, body)
  | sheet _ members => some (0, members)
  | _ => none

theorem block?_children {n : Node} {first : Nat} {members : List Node}
    (h : n.block? = some (first, members)) {k : Nat} (hk : k < members.length) :
    n.children[first + k]? = members[k]? := by
  cases n with
  | ifClause m c body =>
    cases h
    simp [children, Nat.add_comm 1 k]
  | ifElse m c body em ebody =>
    cases h
    simp [children, Nat.add_comm 1 k, List.getElem?_append_left hk]
  | elseClause | rule | sheet =>
    cases h
    simp [children]
  | literal | reference | operation | declaration | assignment | foreign => simp [block?] at h

/-- Child `k` of the node at `b` is a direct member of the block that this node opens. -/
def DirectMember (root : Node) (b : Position) (k : Nat) : Prop :=
  ∃ n first members, root.at? b = some n ∧ n.block? = some (first, members) ∧
    first ≤ k ∧ k < first + members.length

section ElseClause

variable {root c : Node} {p : Position} {m em : Mark} {body ebody : List Node}

theorem at?_elseClause (h : root.at? p = some (.ifElse m c body em ebody)) :
    root.at? (p ++ [body.length + 1]) = some (.elseClause em ebody) := by
  rw [at?_child h]
  simp [children]

theorem not_directMember_elseClause (h : root.at? p = some (.ifElse m c body em ebody)) :
    ¬ root.DirectMember p (body.length + 1) := by
  rintro ⟨n, first, members, hn, hb, -, hlt⟩
  obtain rfl := Option.some.inj (h.symm.trans hn)
  cases hb
  omega

end ElseClause

/-- The block that the node at `b` opens holds `p`, in one of its members. -/
def Encloses (root : Node) (b p : Position) : Prop :=
  ∃ k r, p = b ++ k :: r ∧ root.DirectMember b k

end Node

theorem Sheet.at?_member {s : Sheet} {k : Nat} {n : Node} (h : s.members[k]? = some n) :
    s.node.at? [k] = some n := by
  simpa [Sheet.node, Node.at?, Node.children] using h

end StyleLang
