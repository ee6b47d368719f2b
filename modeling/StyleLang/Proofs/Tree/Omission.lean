import StyleLang.Proofs.Typing.Arrival

/-!
# Trees with a part left out

A sheet without the rule or the if-clause at a position, and a sheet with two neighbours the other way
round. Positions count children, so what is left out is a child of a block, and nothing else moves but
what comes after it in that block.
-/

namespace StyleLang

namespace Node

/-- The node with these children in the place of its own. An else-clause stays the last child. -/
def withChildren : Node → List Node → Node
  | operation m op _ _, [l, r] => operation m op l r
  | declaration m p _, [e] => declaration m p e
  | assignment m x _, [e] => assignment m x e
  | ifClause m _ _, c :: body => ifClause m c body
  | ifElse m c body em ebody, c' :: others =>
    match others.getLast? with
    | some (elseClause em' ebody') => ifElse m c' others.dropLast em' ebody'
    | _ => ifElse m c body em ebody
  | elseClause m _, body => elseClause m body
  | rule m ss _, body => rule m ss body
  | sheet m _, members => sheet m members
  | n, _ => n

/-- The tree without what stands at the position. -/
def without : Position → Node → Node
  | [], n => n
  | [k], n => n.withChildren (n.children.eraseIdx k)
  | k :: i :: p, n => n.withChildren (n.children.modify k (without (i :: p)))

/-- The nodes without what stands at the position in node `k`, or without the node itself. -/
def withoutIn (k : Nat) : Position → List Node → List Node
  | [], ns => ns.eraseIdx k
  | i :: p, ns => ns.modify k (without (i :: p))

theorem without_cons (k : Nat) (p : Position) (n : Node) :
    n.without (k :: p) = n.withChildren (withoutIn k p n.children) := by
  cases p <;> rfl

theorem withoutIn_succ (k : Nat) (p : Position) (n : Node) (ns : List Node) :
    withoutIn (k + 1) p (n :: ns) = n :: withoutIn k p ns := by
  cases p <;> rfl

/-- What is left of a node in its list. -/
def kept (n : Node) : Position → List Node
  | [] => []
  | i :: p => [n.without (i :: p)]

theorem withoutIn_append (before after : List Node) (n : Node) (p : Position) :
    withoutIn before.length p (before ++ n :: after) = before ++ n.kept p ++ after := by
  induction before with
  | nil => cases p <;> rfl
  | cons m before ih => rw [List.cons_append, List.length_cons, withoutIn_succ, ih]; rfl

/-- Node `k` splits a list. -/
theorem exists_split {ns : List Node} {k : Nat} {n : Node} (h : ns[k]? = some n) :
    ∃ before after, ns = before ++ n :: after ∧ before.length = k := by
  obtain ⟨hk, hn⟩ := List.getElem?_eq_some_iff.mp h
  refine ⟨ns.take k, ns.drop (k + 1), ?_, List.length_take_of_le (Nat.le_of_lt hk)⟩
  rw [← hn, List.getElem_cons_drop, List.take_append_drop]

theorem exists_split_pair {ns : List Node} {k : Nat} {a b : Node} (ha : ns[k]? = some a)
    (hb : ns[k + 1]? = some b) :
    ∃ before after, ns = before ++ a :: b :: after ∧ before.length = k := by
  obtain ⟨before, rest, rfl, rfl⟩ := exists_split ha
  cases rest with
  | nil => simp at hb
  | cons b' after =>
    obtain rfl : b' = b := by simpa using hb
    exact ⟨before, after, rfl, rfl⟩

theorem without_rule (m : Mark) (ss : List Selector) (body : List Node) (k : Nat) (p : Position) :
    (rule m ss body).without (k :: p) = .rule m ss (withoutIn k p body) := by
  rw [without_cons]
  rfl

theorem without_ifClause (m : Mark) (c : Node) (body : List Node) (k : Nat) (p : Position) :
    (ifClause m c body).without ((1 + k) :: p) = .ifClause m c (withoutIn k p body) := by
  rw [without_cons, Nat.add_comm, children, withoutIn_succ]
  rfl

theorem without_elseClause (m : Mark) (body : List Node) (k : Nat) (p : Position) :
    (elseClause m body).without (k :: p) = .elseClause m (withoutIn k p body) := by
  rw [without_cons]
  rfl

theorem without_ifElse_body (m : Mark) (c : Node) {body : List Node} (em : Mark)
    (ebody : List Node) {k : Nat} {b : Node} (hb : body[k]? = some b) (p : Position) :
    (ifElse m c body em ebody).without ((1 + k) :: p) =
      .ifElse m c (withoutIn k p body) em ebody := by
  obtain ⟨before, after, rfl, rfl⟩ := exists_split hb
  have hsplit : before ++ b :: after ++ [elseClause em ebody] =
      before ++ b :: (after ++ [elseClause em ebody]) := by
    rw [List.append_assoc, List.cons_append]
  rw [without_cons, Nat.add_comm, children, List.cons_append, withoutIn_succ, hsplit,
    withoutIn_append, withoutIn_append, ← List.append_assoc]
  simp [withChildren]

theorem without_ifElse_elseBody (m : Mark) (c : Node) (body : List Node) (em : Mark)
    (ebody : List Node) (k : Nat) (p : Position) :
    (ifElse m c body em ebody).without ((body.length + 1) :: k :: p) =
      .ifElse m c body em (withoutIn k p ebody) := by
  rw [without_cons, children, List.cons_append, withoutIn_succ, withoutIn_append, kept,
    without_elseClause]
  simp [withChildren]

theorem isValue_at? {n m : Node} (hn : n.isValue = true) {p : Position} (h : n.at? p = some m) :
    m.isValue = true := by
  induction p generalizing n with
  | nil =>
    obtain rfl := Option.some.inj h
    exact hn
  | cons k p ih =>
    obtain ⟨c, hc, h⟩ := Option.bind_eq_some_iff.mp h
    refine ih ?_ h
    cases n with
    | operation op m l r =>
      rw [isValue, Bool.and_eq_true] at hn
      have hmem : c ∈ [l, r] := List.mem_of_getElem? hc
      simp only [List.mem_cons, List.not_mem_nil, or_false] at hmem
      rcases hmem with rfl | rfl
      · exact hn.1
      · exact hn.2
    | literal | reference | foreign => cases hc
    | declaration | assignment | ifClause | ifElse | elseClause | rule | sheet => cases hn

theorem condition?_of_isValue {n : Node} (h : n.isValue = true) : n.condition? = none := by
  cases n <;> first | rfl | cases h

/-- The members of a body are placed as they may be, and at `p` of member `k` stands the if-clause. -/
structure ClauseIn (clause : Node) (body : List Node) (k : Nat) (p : Position) : Prop where
  placed : areBodyMembers body = true
  isClause : clause.condition?.isSome
  found : ∃ n, body[k]? = some n ∧ n.at? p = some clause

/-- The ways down from a member of a body to an if-clause, and what they leave of the member without the
if-clause. -/
inductive ClauseBelow (clause : Node) : Node → Position → Node → Prop
  | ifClause {m c body k p} (h : ClauseIn clause body k p) :
      ClauseBelow clause (.ifClause m c body) ((1 + k) :: p) (.ifClause m c (withoutIn k p body))
  | ifBody {m c body em ebody k p} (h : ClauseIn clause body k p) :
      ClauseBelow clause (.ifElse m c body em ebody) ((1 + k) :: p)
        (.ifElse m c (withoutIn k p body) em ebody)
  | elseBody {m c body em ebody k p} (h : ClauseIn clause ebody k p) :
      ClauseBelow clause (.ifElse m c body em ebody) ((body.length + 1) :: k :: p)
        (.ifElse m c body em (withoutIn k p ebody))

theorem clauseBelow_of_at? {n clause : Node} (hn : n.isBodyMember = true)
    (hc : clause.condition?.isSome) {k : Nat} {p : Position} (h : n.at? (k :: p) = some clause) :
    ClauseBelow clause n (k :: p) (n.without (k :: p)) := by
  have hvalue : ∀ e : Node, e.isValue = true → e.at? p ≠ some clause := by
    intro e he hat
    rw [condition?_of_isValue (isValue_at? he hat)] at hc
    cases hc
  obtain ⟨child, hchild, hat⟩ := Option.bind_eq_some_iff.mp h
  cases n with
  | literal | reference | operation | elseClause | rule | sheet | foreign => cases hn
  | declaration m x e | assignment m x e =>
    obtain rfl : child = e := by simpa [children] using List.mem_of_getElem? hchild
    exact absurd hat (hvalue child hn)
  | ifClause m c body =>
    rw [isBodyMember, Bool.and_eq_true] at hn
    cases k with
    | zero =>
      obtain rfl : c = child := Option.some.inj hchild
      exact absurd hat (hvalue c hn.1)
    | succ k =>
      rw [Nat.add_comm k 1, without_ifClause]
      exact .ifClause ⟨hn.2, hc, child, hchild, hat⟩
  | ifElse m c body em ebody =>
    rw [isBodyMember, Bool.and_eq_true, Bool.and_eq_true] at hn
    cases k with
    | zero =>
      obtain rfl : c = child := Option.some.inj hchild
      exact absurd hat (hvalue c hn.1.1)
    | succ k =>
      have hchild : (body ++ [elseClause em ebody])[k]? = some child := hchild
      by_cases hk : k < body.length
      · rw [List.getElem?_append_left hk] at hchild
        rw [Nat.add_comm k 1, without_ifElse_body m c em ebody hchild]
        exact .ifBody ⟨hn.1.2, hc, child, hchild, hat⟩
      · rw [List.getElem?_append_right (by omega)] at hchild
        obtain ⟨hzero, rfl⟩ := Typing.eq_of_singleton hchild
        obtain rfl : k = body.length := by omega
        cases p with
        | nil =>
          cases hat
          cases hc
        | cons j p =>
          rw [without_ifElse_elseBody]
          exact .elseBody ⟨hn.2, hc, Option.bind_eq_some_iff.mp hat⟩

theorem ClauseBelow.condition?_isSome {clause n n' : Node} {p : Position}
    (h : ClauseBelow clause n p n') : n.condition?.isSome ∧ n'.condition?.isSome := by
  cases h <;> exact ⟨rfl, rfl⟩

/-- What the if-clause stands in is an if-clause, with it and without it. -/
theorem ClauseIn.exists_split {clause : Node} {body : List Node} {k : Nat} {p : Position}
    (h : ClauseIn clause body k p) : ∃ before n after, body = before ++ n :: after ∧
      before.length = k ∧ n.isBodyMember = true ∧ n.at? p = some clause ∧
      n.condition?.isSome ∧ (n.without p).condition?.isSome := by
  obtain ⟨hplaced, hc, n, hn, hat⟩ := h
  have hmember := areBodyMembers_iff.mp hplaced n (List.mem_of_getElem? hn)
  obtain ⟨before, after, rfl, rfl⟩ := Node.exists_split hn
  refine ⟨before, n, after, rfl, rfl, hmember, hat, ?_⟩
  cases p with
  | nil =>
    obtain rfl := Option.some.inj hat
    exact ⟨hc, hc⟩
  | cons k p => exact (clauseBelow_of_at? hmember hc hat).condition?_isSome

end Node

namespace Sheet

/-- The sheet without what stands at the position. -/
def without (p : Position) (s : Sheet) : Sheet :=
  match p with
  | [] => s
  | k :: p => ⟨s.mark, Node.withoutIn k p s.members⟩

/-- The number of rules in front of a member of the sheet. -/
def rulesBefore (s : Sheet) (k : Nat) : Nat := ((s.members.take k).filter Node.isRule).length

end Sheet

/-- The list with node `k` and the next one the other way round. -/
def Node.swapAt : Nat → List Node → List Node
  | 0, a :: b :: ns => b :: a :: ns
  | k + 1, n :: ns => n :: swapAt k ns
  | _, ns => ns

theorem Node.swapAt_append (before after : List Node) (a b : Node) :
    swapAt before.length (before ++ a :: b :: after) = before ++ b :: a :: after := by
  induction before with
  | nil => rfl
  | cons n before ih => rw [List.cons_append, List.length_cons, swapAt, ih, List.cons_append]

/-- The sheet with member `k` and the next one the other way round. -/
def Sheet.swap (k : Nat) (s : Sheet) : Sheet := ⟨s.mark, Node.swapAt k s.members⟩

/-- In a well-placed sheet an if-clause stands in a rule. -/
theorem Sheet.exists_rule_of_at? {s : Sheet} (hw : s.isWellPlaced = true) {clause : Node}
    (hc : clause.condition?.isSome) {p : Position} (h : s.node.at? p = some clause) :
    ∃ k j q m ss body, p = k :: j :: q ∧ s.members[k]? = some (.rule m ss body) ∧
      Node.ClauseIn clause body j q := by
  cases p with
  | nil =>
    cases h
    cases hc
  | cons k p =>
    obtain ⟨n, hmember, hat⟩ := Option.bind_eq_some_iff.mp h
    have hn : s.members[k]? = some n := hmember
    have hplaced := List.all_eq_true.mp hw n (List.mem_of_getElem? hn)
    cases n with
    | assignment m x e =>
      cases p with
      | nil =>
        cases hat
        cases hc
      | cons j q =>
        obtain ⟨c, hchild, hbelow⟩ := Option.bind_eq_some_iff.mp hat
        obtain rfl : c = e := by simpa [Node.children] using List.mem_of_getElem? hchild
        rw [Node.condition?_of_isValue (Node.isValue_at? hplaced hbelow)] at hc
        cases hc
    | rule m ss body =>
      cases p with
      | nil =>
        cases hat
        cases hc
      | cons j q =>
        exact ⟨k, j, q, m, ss, body, rfl, hn, hplaced, hc, Option.bind_eq_some_iff.mp hat⟩
    | literal | reference | operation | declaration | ifClause | ifElse | elseClause | sheet
    | foreign => cases hplaced

end StyleLang
