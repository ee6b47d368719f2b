import Mathlib.Data.List.Induction
import StyleLang.Node.Equality
import StyleLang.Node.Walk
import StyleLang.Proofs.Tree.DocumentOrder

/-!
# The walk and the tree below it

The walk from a stack is the walk from each node on the stack in turn, so a walk is the node followed by
the walks from its children. It comes to every position of the tree once, in document order. "No slot is
filled" becomes a statement about a node and its children, and then about every position.
-/

namespace StyleLang.Node

open Position

theorem visit_append (as bs : List Node) : visit (as ++ bs) = visit as ++ visit bs := by
  fun_induction visit as with
  | case1 => simp
  | case2 n stack ih =>
    rw [List.cons_append, visit, ← List.append_assoc, ih, List.cons_append]

theorem visit_eq_flatMap (ns : List Node) : visit ns = ns.flatMap walk := by
  induction ns with
  | nil => simp [visit]
  | cons n ns ih =>
    rw [← List.singleton_append, visit_append, ih, List.flatMap_append, List.flatMap_singleton]
    rfl

theorem walk_eq (n : Node) : n.walk = n :: n.children.flatMap walk := by
  rw [walk, visit, List.append_nil, visit_eq_flatMap]

theorem mem_walk_iff {d n : Node} : d ∈ n.walk ↔ d = n ∨ ∃ c ∈ n.children, d ∈ c.walk := by
  rw [walk_eq, List.mem_cons, List.mem_flatMap]

theorem mem_walk_of_at? {root n : Node} {p : Position} (h : root.at? p = some n) : n ∈ root.walk := by
  induction p generalizing root with
  | nil => exact mem_walk_iff.mpr (Or.inl (Option.some.inj h).symm)
  | cons k p ih =>
    obtain ⟨c, hc, hn⟩ := Option.bind_eq_some_iff.mp h
    exact mem_walk_iff.mpr (Or.inr ⟨c, List.mem_of_getElem? hc, ih hn⟩)

theorem size_le_of_mem {c : Node} {ns : List Node} (h : c ∈ ns) : c.size ≤ sizeAll ns := by
  induction ns with
  | nil => cases h
  | cons n ns ih =>
    rw [sizeAll]
    rcases List.mem_cons.mp h with rfl | h
    · omega
    · have := ih h
      omega

/-- What follows for a node from its children holds of every node. -/
theorem children_induction {P : Node → Prop} (h : ∀ n, (∀ c ∈ n.children, P c) → P n) (n : Node) :
    P n := by
  induction hs : n.size using Nat.strongRecOn generalizing n with
  | ind size ih =>
    refine h n fun c hc => ih c.size ?_ c rfl
    have hle := size_le_of_mem hc
    rw [← hs, size_eq n]
    omega

/-- Walked in turn, the nodes of a list come before what stands behind them in it. -/
theorem flatMap_walk_inOrder {ns : List Node}
    (h : ∀ c ∈ ns, InOrder (fun p d => c.at? p = some d) c.walk) :
    InOrder (fun p d => ∃ k q c, p = k :: q ∧ ns[k]? = some c ∧ c.at? q = some d)
      (ns.flatMap walk) := by
  induction ns using List.reverseRecOn with
  | nil => exact InOrder.nothing.congr (by simp)
  | append_singleton ns n ih =>
    have hbefore := ih fun c hc => h c (List.mem_append_left [n] hc)
    have hlast := (h n (by simp)).under ns.length
    rw [List.flatMap_append, List.flatMap_singleton]
    refine (hbefore.append hlast ?_).congr fun p d => ⟨?_, ?_⟩
    · rintro q p a b ⟨k, q, c, rfl, hc, -⟩ ⟨p, rfl, -⟩
      exact precedes_siblings (List.getElem?_eq_some_iff.mp hc).1 q p
    · rintro (⟨k, q, c, rfl, hc, hd⟩ | ⟨q, rfl, hd⟩)
      · exact ⟨k, q, c, rfl, by rw [List.getElem?_append_left (List.getElem?_eq_some_iff.mp hc).1, hc], hd⟩
      · exact ⟨ns.length, q, n, rfl, List.getElem?_concat_length, hd⟩
    · rintro ⟨k, q, c, rfl, hc, hd⟩
      obtain ⟨hk, -⟩ := List.getElem?_eq_some_iff.mp hc
      rw [List.length_append, List.length_singleton] at hk
      rcases Nat.lt_succ_iff_lt_or_eq.mp hk with hk | rfl
      · exact Or.inl ⟨k, q, c, rfl, by rwa [List.getElem?_append_left hk] at hc, hd⟩
      · rw [List.getElem?_concat_length] at hc
        obtain rfl := Option.some.inj hc
        exact Or.inr ⟨q, rfl, hd⟩

/-- A walk gives every node of the tree once for each position that it has, in document order. -/
theorem walk_inOrder (n : Node) : InOrder (fun p d => n.at? p = some d) n.walk := by
  induction n using children_induction with
  | h n ih =>
    rw [walk_eq, ← List.singleton_append]
    refine ((InOrder.root n).append (flatMap_walk_inOrder ih) ?_).congr fun p d => ?_
    · rintro q p a b ⟨rfl, -⟩ ⟨k, p, c, rfl, -⟩
      exact precedes_nil k p
    · cases p with
      | nil => simp [eq_comm]
      | cons k p => simp [at?, Option.bind_eq_some_iff]

/-- No slot is filled from a node downwards exactly if its own is empty and none is filled below. -/
theorem hasErrors_eq_false_iff {n : Node} :
    n.hasErrors = false ↔ n.mark = none ∧ ∀ c ∈ n.children, c.hasErrors = false := by
  unfold hasErrors
  rw [walk_eq, List.any_cons, List.any_flatMap, Bool.or_eq_false_iff]
  simp

theorem diagnostics_eq_nil_iff {n : Node} : n.diagnostics = [] ↔ n.hasErrors = false := by
  unfold diagnostics hasErrors
  rw [List.filterMap_eq_nil_iff, List.any_eq_false]
  simp

theorem hasErrors_child {n c : Node} (h : n.hasErrors = false) (hc : c ∈ n.children) :
    c.hasErrors = false :=
  (hasErrors_eq_false_iff.mp h).2 c hc

theorem hasErrors_at? {root n : Node} {p : Position} (h : root.hasErrors = false)
    (hn : root.at? p = some n) : n.hasErrors = false := by
  induction p generalizing root with
  | nil =>
    obtain rfl := Option.some.inj hn
    exact h
  | cons k p ih =>
    obtain ⟨c, hc, hn⟩ := Option.bind_eq_some_iff.mp hn
    exact ih (hasErrors_child h (List.mem_of_getElem? hc)) hn

theorem hasErrors_of_at? {root : Node} (h : ∀ p n, root.at? p = some n → n.mark = none) :
    root.hasErrors = false := by
  induction root using children_induction with
  | h root ih =>
    refine hasErrors_eq_false_iff.mpr ⟨h [] root rfl, fun c hc => ih c hc fun p n hn => ?_⟩
    obtain ⟨k, hk⟩ := List.mem_iff_getElem?.mp hc
    apply h (k :: p) n
    rw [at?, hk]
    exact hn

mutual

theorem unmarked_unmarked (n : Node) : n.unmarked.unmarked = n.unmarked := by
  cases n with
  | literal | reference | foreign => rfl
  | operation m op l r => simp only [unmarked, unmarked_unmarked l, unmarked_unmarked r]
  | declaration m p e => simp only [unmarked, unmarked_unmarked e]
  | assignment m x e => simp only [unmarked, unmarked_unmarked e]
  | ifClause m c body => simp only [unmarked, unmarked_unmarked c, unmarkedAll_unmarkedAll body]
  | ifElse m c body em ebody =>
    simp only [unmarked, unmarked_unmarked c, unmarkedAll_unmarkedAll body,
      unmarkedAll_unmarkedAll ebody]
  | elseClause m body => simp only [unmarked, unmarkedAll_unmarkedAll body]
  | rule m ss body => simp only [unmarked, unmarkedAll_unmarkedAll body]
  | sheet m members => simp only [unmarked, unmarkedAll_unmarkedAll members]

theorem unmarkedAll_unmarkedAll (ns : List Node) :
    unmarkedAll (unmarkedAll ns) = unmarkedAll ns := by
  cases ns with
  | nil => rfl
  | cons n ns => simp only [unmarkedAll, unmarked_unmarked n, unmarkedAll_unmarkedAll ns]

end

theorem unmarkedAll_eq_map (ns : List Node) : unmarkedAll ns = ns.map unmarked := by
  induction ns with
  | nil => rfl
  | cons n ns ih => rw [unmarkedAll, List.map_cons, ih]

theorem unmarkedAll_eq_self {ns : List Node} (h : ∀ n ∈ ns, n.unmarked = n) :
    unmarkedAll ns = ns := by
  induction ns with
  | nil => rfl
  | cons n ns ih =>
    have hn := h n List.mem_cons_self
    have hns := ih fun m hm => h m (List.mem_cons_of_mem n hm)
    rw [unmarkedAll, hn, hns]

theorem unmarked_eq_self {n : Node} (h : n.hasErrors = false) : n.unmarked = n := by
  induction n using children_induction with
  | h n ih =>
    obtain ⟨hm, hc⟩ := hasErrors_eq_false_iff.mp h
    have ih : ∀ c ∈ n.children, c.unmarked = c := fun c hc' => ih c hc' (hc c hc')
    cases n with
    | literal | reference | foreign => simp_all [mark, unmarked]
    | operation | declaration | assignment => simp_all [mark, unmarked, children]
    | elseClause m body | rule m ss body | sheet m body =>
      obtain rfl : m = none := hm
      have hbody : unmarkedAll body = body := unmarkedAll_eq_self ih
      rw [unmarked, hbody]
    | ifClause m c body =>
      obtain rfl : m = none := hm
      have hbody : unmarkedAll body = body :=
        unmarkedAll_eq_self fun n hn => ih n (List.mem_cons_of_mem c hn)
      rw [unmarked, ih c List.mem_cons_self, hbody]
    | ifElse m c body em ebody =>
      obtain rfl : m = none := hm
      have hbody : unmarkedAll body = body :=
        unmarkedAll_eq_self fun n hn => ih n (by simp [children, hn])
      have helse := ih (.elseClause em ebody) (by simp [children])
      rw [unmarked, elseClause.injEq] at helse
      rw [unmarked, ih c (by simp [children]), hbody, helse.2, ← helse.1]

/-- Trees that are the same and have no slot filled are equal. -/
theorem eq_of_same {a b : Node} (h : a.same b = true) (ha : a.hasErrors = false)
    (hb : b.hasErrors = false) : a = b := by
  rw [← unmarked_eq_self ha, ← unmarked_eq_self hb]
  exact of_decide_eq_true h

theorem mark_at? {root n : Node} {p : Position} (h : root.hasErrors = false)
    (hn : root.at? p = some n) : n.mark = none :=
  (hasErrors_eq_false_iff.mp (hasErrors_at? h hn)).1

end StyleLang.Node
