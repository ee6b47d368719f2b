import StyleLang.Proofs.Tree.Placement
import StyleLang.Proofs.Tree.Walk

/-!
# Trees that differ in their slots only

Two trees that are equal with all slots emptied have the same positions, with the same node but for its
slot at each of them. They are equal if the slots agree at every position. Which diagnostics the slots
hold does not matter.
-/

namespace StyleLang

namespace Node

theorem mark_unmarked (n : Node) : n.unmarked.mark = none := by
  cases n <;> rfl

theorem children_unmarked (n : Node) : n.unmarked.children = n.children.map unmarked := by
  cases n <;> simp [unmarked, children, unmarkedAll_eq_map]

theorem at?_unmarked (n : Node) (p : Position) : n.unmarked.at? p = (n.at? p).map unmarked :=
  at?_map children_unmarked n p

section

variable {a b : Node} (h : a.unmarked = b.unmarked) {p : Position}
include h

theorem at?_of_unmarked_eq {n : Node} (hn : a.at? p = some n) :
    ∃ n', b.at? p = some n' ∧ n.unmarked = n'.unmarked := by
  have hmap := at?_unmarked b p
  rw [← h, at?_unmarked, hn] at hmap
  obtain ⟨n', hn', hsame⟩ := Option.map_eq_some_iff.mp hmap.symm
  exact ⟨n', hn', hsame.symm⟩

theorem literal_of_unmarked_eq {m : Mark} {v : Literal} (hn : a.at? p = some (.literal m v)) :
    ∃ m', b.at? p = some (.literal m' v) := by
  obtain ⟨n, hn, hsame⟩ := at?_of_unmarked_eq h hn
  cases n <;> simp [unmarked] at hsame
  subst hsame
  exact ⟨_, hn⟩

theorem reference_of_unmarked_eq {m : Mark} {x : String} (hn : a.at? p = some (.reference m x)) :
    ∃ m', b.at? p = some (.reference m' x) := by
  obtain ⟨n, hn, hsame⟩ := at?_of_unmarked_eq h hn
  cases n <;> simp [unmarked] at hsame
  subst hsame
  exact ⟨_, hn⟩

theorem operation_of_unmarked_eq {m : Mark} {op : Operator} {l r : Node}
    (hn : a.at? p = some (.operation m op l r)) : ∃ m' l' r', b.at? p = some (.operation m' op l' r') := by
  obtain ⟨n, hn, hsame⟩ := at?_of_unmarked_eq h hn
  cases n <;> simp [unmarked] at hsame
  obtain ⟨rfl, -⟩ := hsame
  exact ⟨_, _, _, hn⟩

theorem declaration_of_unmarked_eq {m : Mark} {x : String} {e : Node}
    (hn : a.at? p = some (.declaration m x e)) : ∃ m' e', b.at? p = some (.declaration m' x e') := by
  obtain ⟨n, hn, hsame⟩ := at?_of_unmarked_eq h hn
  cases n <;> simp [unmarked] at hsame
  obtain ⟨rfl, -⟩ := hsame
  exact ⟨_, _, hn⟩

theorem assignment_of_unmarked_eq {m : Mark} {x : String} {e : Node}
    (hn : a.at? p = some (.assignment m x e)) : ∃ m' e', b.at? p = some (.assignment m' x e') := by
  obtain ⟨n, hn, hsame⟩ := at?_of_unmarked_eq h hn
  cases n <;> simp [unmarked] at hsame
  obtain ⟨rfl, -⟩ := hsame
  exact ⟨_, _, hn⟩

end

theorem block?_of_unmarked_eq {a b : Node} (h : a.unmarked = b.unmarked) {first : Nat}
    {members : List Node} (ha : a.block? = some (first, members)) :
    ∃ members', b.block? = some (first, members') ∧ members'.length = members.length := by
  have hlength : ∀ {ns ms : List Node}, unmarkedAll ns = unmarkedAll ms → ms.length = ns.length := by
    intro ns ms hns
    rw [unmarkedAll_eq_map, unmarkedAll_eq_map] at hns
    simpa using (congrArg List.length hns).symm
  cases a with
  | literal | reference | operation | declaration | assignment | foreign => cases ha
  | ifClause | ifElse | elseClause | rule | sheet =>
    cases ha
    cases b <;> simp [unmarked] at h
    exact ⟨_, rfl, hlength (by simp [h])⟩

/-- A node is determined by its slot, its children and what it is with all slots emptied. -/
theorem eq_of_children {a b : Node} (h : a.unmarked = b.unmarked) (hm : a.mark = b.mark)
    (hc : a.children = b.children) : a = b := by
  cases a <;> cases b <;> simp_all [unmarked, mark, children]

/-- Trees that differ in slots at most, and in none, are equal. -/
theorem eq_of_marks {a b : Node} (h : a.unmarked = b.unmarked)
    (hm : ∀ p n n', a.at? p = some n → b.at? p = some n' → n.mark = n'.mark) : a = b := by
  induction a using children_induction generalizing b with
  | h a ih =>
    have hmap : a.children.map unmarked = b.children.map unmarked := by
      rw [← children_unmarked, ← children_unmarked, h]
    refine eq_of_children h (hm [] a b rfl rfl) (List.ext_getElem? fun k => ?_)
    have hk := congrArg (·[k]?) hmap
    simp only [List.getElem?_map] at hk
    cases ha : a.children[k]? with
    | none =>
      cases hb : b.children[k]? with
      | none => rfl
      | some d => simp [ha, hb] at hk
    | some c =>
      cases hb : b.children[k]? with
      | none => simp [ha, hb] at hk
      | some d =>
        rw [ha, hb] at hk
        have hsame : c.unmarked = d.unmarked := by simpa using hk
        rw [ih c (List.mem_of_getElem? ha) hsame fun p n n' hn hn' => ?_]
        exact hm (k :: p) n n' (Option.bind_eq_some_iff.mpr ⟨c, ha, hn⟩)
          (Option.bind_eq_some_iff.mpr ⟨d, hb, hn'⟩)

theorem isValue_unmarked (e : Node) : e.unmarked.isValue = e.isValue := by
  cases e with
  | operation m op l r => simp only [unmarked, isValue, isValue_unmarked l, isValue_unmarked r]
  | literal | reference | declaration | assignment | ifClause | ifElse | elseClause | rule | sheet
  | foreign => rfl

mutual

theorem isBodyMember_unmarked (n : Node) : n.unmarked.isBodyMember = n.isBodyMember := by
  cases n with
  | declaration m x e | assignment m x e => simp only [unmarked, isBodyMember, isValue_unmarked e]
  | ifClause m c body =>
    simp only [unmarked, isBodyMember, isValue_unmarked c, areBodyMembers_unmarkedAll body]
  | ifElse m c body em ebody =>
    simp only [unmarked, isBodyMember, isValue_unmarked c, areBodyMembers_unmarkedAll body,
      areBodyMembers_unmarkedAll ebody]
  | literal | reference | operation | elseClause | rule | sheet | foreign => rfl

theorem areBodyMembers_unmarkedAll (ns : List Node) :
    areBodyMembers (unmarkedAll ns) = areBodyMembers ns := by
  cases ns with
  | nil => rfl
  | cons n ns =>
    simp only [unmarkedAll, areBodyMembers, isBodyMember_unmarked n, areBodyMembers_unmarkedAll ns]

end

theorem isSheetMember_unmarked (n : Node) : n.unmarked.isSheetMember = n.isSheetMember := by
  cases n with
  | assignment m x e => simp only [unmarked, isSheetMember, isValue_unmarked]
  | rule m ss body => simp only [unmarked, isSheetMember, areBodyMembers_unmarkedAll]
  | literal | reference | operation | declaration | ifClause | ifElse | elseClause | sheet
  | foreign => rfl

end Node

namespace Sheet

/-- The sheet with all slots emptied. -/
def unmarked (s : Sheet) : Sheet := ⟨none, Node.unmarkedAll s.members⟩

theorem node_unmarked (s : Sheet) : s.unmarked.node = s.node.unmarked := rfl

theorem isWellPlaced_unmarked (s : Sheet) : s.unmarked.isWellPlaced = s.isWellPlaced := by
  simp only [isWellPlaced, unmarked, Node.unmarkedAll_eq_map, List.all_map]
  exact congrArg _ (funext Node.isSheetMember_unmarked)

theorem isWellPlaced_of_unmarked_eq {s t : Sheet} (h : s.node.unmarked = t.node.unmarked)
    (hs : s.isWellPlaced = true) : t.isWellPlaced = true := by
  have hmembers : s.unmarked = t.unmarked := congrArg (Sheet.mk none) (by simpa [node, Node.unmarked] using h)
  rw [← isWellPlaced_unmarked, ← hmembers, isWellPlaced_unmarked, hs]

end Sheet

end StyleLang
