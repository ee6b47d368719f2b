import Mathlib.Data.List.Induction
import StyleLang.Proofs.Tree.Walk
import StyleLang.Proofs.Typing.Lexical
import StyleLang.Proofs.Typing.Pass

/-!
# Where checking comes with which chain

`Arrives` follows a check down to a position: each node is come to with the chain that checking what
stands before it in its block has left. The checked tree holds at each position what the check makes of
the node there with that chain. That chain answers a name as the scopes by position do (`Agrees`).
-/

namespace StyleLang

namespace Node

/-- The expressions among the children of a node; they are its first children. -/
def expressions : Node → List Node
  | operation _ _ l r => [l, r]
  | declaration _ _ e => [e]
  | assignment _ _ e => [e]
  | ifClause _ c _ => [c]
  | ifElse _ c _ _ _ => [c]
  | _ => []

theorem children_of_expressions {n e : Node} {k : Nat} (h : n.expressions[k]? = some e) :
    n.children[k]? = some e := by
  cases n with
  | operation | declaration | assignment => exact h
  | ifClause | ifElse =>
    cases k with
    | zero => exact h
    | succ k => simp [expressions] at h
  | literal | reference | elseClause | rule | sheet | foreign => simp [expressions] at h

/-- Expressions are no members of a block. -/
theorem not_directMember_expression {root n e : Node} {p : Position} {k : Nat}
    (hn : root.at? p = some n) (h : n.expressions[k]? = some e) : ¬ root.DirectMember p k := by
  intro h
  obtain ⟨n', first, members, hn', hb, hle, -⟩ := h
  obtain rfl := Option.some.inj (hn.symm.trans hn')
  cases n with
  | ifClause | ifElse =>
    cases hb
    cases k with
    | zero => omega
    | succ k => simp [expressions] at h
  | literal | reference | operation | declaration | assignment | foreign => cases hb
  | elseClause | rule | sheet => simp [expressions] at h

end Node

namespace Typing

/-- Checking the sheet comes to a position with these selectors and this chain. -/
inductive Arrives (table : PropertyTable) (s : Sheet) : Position → Option String → Types → Prop
  | sheetMember {k} (hk : k < s.members.length) : Arrives table s [k] none
      (checkMembers table (Chain.empty .lexical).enter (s.members.take k)).chain
  | ruleMember {p types m ss body k} (h : Arrives table s p none types)
      (hn : s.node.at? p = some (.rule m ss body)) (hk : k < body.length) :
      Arrives table s (p ++ [k]) (some (Selector.textAll ss))
        (checkBody table (Selector.textAll ss) types.enter (body.take k)).chain
  | branchMember {p sel types n first body k} (h : Arrives table s p (some sel) types)
      (hn : s.node.at? p = some n) (hb : n.block? = some (first, body)) (hk : k < body.length) :
      Arrives table s (p ++ [first + k]) (some sel)
        (checkBody table sel types.enter (body.take k)).chain
  | elseClause {p sel types m c body em ebody} (h : Arrives table s p (some sel) types)
      (hn : s.node.at? p = some (.ifElse m c body em ebody)) :
      Arrives table s (p ++ [body.length + 1]) (some sel)
        (Passage.inScope types fun opened => checkBody table sel opened body).chain
  | expression {p sel types n e k} (h : Arrives table s p sel types)
      (hn : s.node.at? p = some n) (he : n.expressions[k]? = some e) :
      Arrives table s (p ++ [k]) sel types

/-- The nodes that a well-placed sheet has inside a rule or, without selectors, outside. -/
def Placed (n : Node) : Option String → Prop
  | none => n.isSheetMember = true ∨ n.isValue = true
  | some _ => n.isBodyMember = true ∨ n.isValue = true ∨
      ∃ m body, n = .elseClause m body ∧ Node.areBodyMembers body = true

theorem value_placed {n : Node} (h : n.isValue = true) (sel : Option String) : Placed n sel := by
  cases sel with
  | none => exact Or.inr h
  | some s => exact Or.inr (Or.inl h)

theorem Placed.expression {n e : Node} {sel : Option String} {k : Nat} (h : Placed n sel)
    (he : n.expressions[k]? = some e) : e.isValue = true := by
  have hmem := List.mem_of_getElem? he
  cases n <;> cases sel <;>
    simp_all [Placed, Node.isSheetMember, Node.isBodyMember, Node.isValue, Node.expressions] <;>
    rcases hmem with rfl | rfl <;> simp_all

theorem Placed.members {n : Node} {sel : String} {first : Nat} {body : List Node}
    (h : Placed n (some sel)) (hb : n.block? = some (first, body)) :
    Node.areBodyMembers body = true := by
  cases n <;> simp_all [Placed, Node.isBodyMember, Node.isValue, Node.block?]

theorem Placed.at_members {s : Sheet} (hw : s.isWellPlaced = true) {n : Node}
    (hn : n ∈ s.members) : Placed n none :=
  Or.inl (List.all_eq_true.mp hw n hn)

theorem body_placed {body : List Node} (hw : Node.areBodyMembers body = true) {n : Node} {k : Nat}
    (hn : body[k]? = some n) (sel : String) : Placed n (some sel) :=
  Or.inl (Node.areBodyMembers_iff.mp hw n (List.mem_of_getElem? hn))

theorem Arrives.placed {table : PropertyTable} {s : Sheet} (hw : s.isWellPlaced = true)
    {p : Position} {sel : Option String} {types : Types} (h : Arrives table s p sel types)
    {n : Node} (hn : s.node.at? p = some n) : Placed n sel := by
  induction h generalizing n with
  | @sheetMember k hk =>
    have hmem : s.members[k]? = some n := by simpa [Sheet.node, Node.at?, Node.children] using hn
    exact Placed.at_members hw (List.mem_of_getElem? hmem)
  | @ruleMember p types m ss body k h hr hk ih =>
    rw [Node.at?_child hr] at hn
    have hbody : Node.areBodyMembers body = true := by
      have := ih hr
      simpa [Placed, Node.isSheetMember, Node.isValue] using this
    exact body_placed hbody hn _
  | @branchMember p sel types n' first body k h hn' hb hk ih =>
    rw [Node.at?_child hn', Node.block?_children hb hk] at hn
    exact body_placed ((ih hn').members hb) hn sel
  | @elseClause p sel types m c body em ebody h hn' ih =>
    rw [Node.at?_child hn'] at hn
    have hbody : Node.areBodyMembers ebody = true := by
      have := ih hn'
      simp only [Placed, Node.isBodyMember, Node.isValue, Bool.and_eq_true] at this
      simp_all
    have he : n = .elseClause em ebody := by
      simpa [Node.children, eq_comm] using hn
    exact Or.inr (Or.inr ⟨em, ebody, he, hbody⟩)
  | @expression p sel types n' e k h hn' he ih =>
    rw [Node.at?_child hn', Node.children_of_expressions he] at hn
    obtain rfl := Option.some.inj hn
    exact value_placed ((ih hn').expression he) sel

/-- Checking comes to every position of a well-placed sheet but its root. -/
theorem arrives_of_at? (table : PropertyTable) {s : Sheet} (hw : s.isWellPlaced = true)
    {p : Position} {n : Node} (hn : s.node.at? p = some n) (hp : p ≠ []) :
    ∃ sel types, Arrives table s p sel types := by
  induction p using List.reverseRecOn generalizing n with
  | nil => exact absurd rfl hp
  | append_singleton p k ih =>
    obtain ⟨parent, hparent, hk⟩ := Node.at?_snoc hn
    by_cases hp' : p = []
    · subst hp'
      obtain rfl := Option.some.inj hparent
      have hlt : k < s.members.length := (List.getElem?_eq_some_iff.mp hk).1
      exact ⟨none, _, .sheetMember hlt⟩
    · obtain ⟨sel, types, harr⟩ := ih hparent hp'
      have hpl := harr.placed hw hparent
      cases parent with
      | literal | reference | foreign => simp [Node.children] at hk
      | operation | declaration | assignment => exact ⟨sel, types, .expression harr hparent hk⟩
      | sheet m members =>
        cases sel <;> simp [Placed, Node.isSheetMember, Node.isBodyMember, Node.isValue] at hpl
      | rule m ss body =>
        have hlt : k < body.length := (List.getElem?_eq_some_iff.mp hk).1
        cases sel with
        | none => exact ⟨_, _, .ruleMember harr hparent hlt⟩
        | some sel => simp [Placed, Node.isBodyMember, Node.isValue] at hpl
      | elseClause m body =>
        have hlt : k < body.length := (List.getElem?_eq_some_iff.mp hk).1
        cases sel with
        | none => simp [Placed, Node.isSheetMember, Node.isValue] at hpl
        | some sel =>
          have := Arrives.branchMember harr hparent rfl hlt
          rw [Nat.zero_add] at this
          exact ⟨_, _, this⟩
      | ifClause m c body =>
        cases sel with
        | none => simp [Placed, Node.isSheetMember, Node.isValue] at hpl
        | some sel =>
          cases k with
          | zero => exact ⟨_, _, .expression harr hparent rfl⟩
          | succ k =>
            have hk' : body[k]? = some n := hk
            have hlt : k < body.length := (List.getElem?_eq_some_iff.mp hk').1
            have := Arrives.branchMember harr hparent rfl hlt
            rw [Nat.add_comm] at this
            exact ⟨_, _, this⟩
      | ifElse m c body em ebody =>
        cases sel with
        | none => simp [Placed, Node.isSheetMember, Node.isValue] at hpl
        | some sel =>
          cases k with
          | zero => exact ⟨_, _, .expression harr hparent rfl⟩
          | succ k =>
            rcases Nat.lt_trichotomy k body.length with hlt | rfl | hgt
            · have := Arrives.branchMember harr hparent rfl hlt
              rw [Nat.add_comm] at this
              exact ⟨_, _, this⟩
            · exact ⟨_, _, .elseClause harr hparent⟩
            · have hlen := (List.getElem?_eq_some_iff.mp hk).1
              simp [Node.children] at hlen
              omega

/-- What checking makes of a node that it comes to with these selectors and this chain. -/
def checkedNode (table : PropertyTable) (sel : Option String) (types : Types) (n : Node) : Node :=
  match n, sel with
  | .rule m ss body, _ => (checkSheetMember table types (.rule m ss body)).tree
  | .assignment m x e, _ => (checkAssignment types sel m x e).tree
  | .elseClause m body, some t => .elseClause m (checkBody table t types.enter body).tree
  | .declaration m p e, some t => (checkMember table t types (.declaration m p e)).tree
  | .ifClause m c body, some t => (checkMember table t types (.ifClause m c body)).tree
  | .ifElse m c body em ebody, some t =>
    (checkMember table t types (.ifElse m c body em ebody)).tree
  | n, _ => (infer types sel n).tree

theorem checkedNode_member (table : PropertyTable) (sel : String) (types : Types) {n : Node}
    (h : n.isBodyMember = true) :
    checkedNode table (some sel) types n = (checkMember table sel types n).tree := by
  cases n with
  | declaration | ifClause | ifElse => rfl
  | assignment => simp only [checkedNode, checkMember]
  | literal | reference | operation | elseClause | rule | sheet | foreign =>
    simp [Node.isBodyMember] at h

theorem checkedNode_sheetMember (table : PropertyTable) (types : Types) {n : Node}
    (h : n.isSheetMember = true) :
    checkedNode table none types n = (checkSheetMember table types n).tree := by
  cases n with
  | rule | assignment => rfl
  | literal | reference | operation | declaration | ifClause | ifElse | elseClause | sheet
  | foreign => simp [Node.isSheetMember] at h

theorem checkedNode_value (table : PropertyTable) (sel : Option String) (types : Types) {n : Node}
    (h : n.isValue = true) : checkedNode table sel types n = (infer types sel n).tree := by
  cases n with
  | literal | reference | operation => rfl
  | declaration | assignment | ifClause | ifElse | elseClause | rule | sheet | foreign =>
    simp [Node.isValue] at h

theorem eq_of_singleton {a b : Node} {k : Nat} (h : [a][k]? = some b) : k = 0 ∧ a = b := by
  cases k with
  | zero => exact ⟨rfl, Option.some.inj h⟩
  | succ k => cases h

/-- The expressions of a node are checked with the chain of the node. -/
theorem checkedNode_expression (table : PropertyTable) {sel : Option String} {types : Types}
    (hs : types.scopes ≠ []) {n e : Node} (h : Placed n sel) {k : Nat}
    (he : n.expressions[k]? = some e) :
    (checkedNode table sel types n).children[k]? = some (infer types sel e).tree := by
  obtain ⟨t, ht⟩ := infer_ok (h.expression he) types sel
  cases n with
  | literal | reference | elseClause | rule | sheet | foreign => simp [Node.expressions] at he
  | operation m op l r =>
    obtain ⟨a, ha⟩ := infer_ok (h.expression (k := 0) rfl) types sel
    obtain ⟨b, hb⟩ := infer_ok (h.expression (k := 1) rfl) types sel
    simp only [checkedNode, infer_operation ha hb, Node.children]
    cases k with
    | zero =>
      obtain rfl := Option.some.inj he
      rfl
    | succ k =>
      obtain ⟨rfl, rfl⟩ := eq_of_singleton he
      rfl
  | assignment m x e' =>
    obtain ⟨rfl, rfl⟩ := eq_of_singleton he
    obtain ⟨types', -, hc⟩ := checkAssignment_eq hs ht m x
    simp only [checkedNode, hc]
    rfl
  | declaration m p e' =>
    cases sel with
    | none => simp [Placed, Node.isSheetMember, Node.isValue] at h
    | some sel =>
      obtain ⟨rfl, rfl⟩ := eq_of_singleton he
      simp only [checkedNode, checkMember_declaration table ht]
      rfl
  | ifClause m c body =>
    cases sel with
    | none => simp [Placed, Node.isSheetMember, Node.isValue] at h
    | some sel =>
      obtain ⟨rfl, rfl⟩ := eq_of_singleton he
      simp only [checkedNode, checkMember_ifClause table ht]
      rfl
  | ifElse m c body em ebody =>
    cases sel with
    | none => simp [Placed, Node.isSheetMember, Node.isValue] at h
    | some sel =>
      obtain ⟨rfl, rfl⟩ := eq_of_singleton he
      have hb := (checkBody_ok_iff table sel types.enter_ne_nil body).mpr (h.members rfl)
      simp only [checkedNode, checkMember_ifElse table ht hb]
      rfl

/-- The members of a branch are those of the body checked in a scope of its own. -/
theorem checkedNode_members (table : PropertyTable) {sel : String} {types : Types} {n : Node}
    (h : Placed n (some sel)) {first : Nat} {body : List Node}
    (hb : n.block? = some (first, body)) :
    (checkedNode table (some sel) types n).block? =
      some (first, (checkBody table sel types.enter body).tree) := by
  cases n with
  | literal | reference | operation | declaration | assignment | foreign => simp [Node.block?] at hb
  | rule | sheet => simp [Placed, Node.isBodyMember, Node.isValue] at h
  | elseClause m body' =>
    cases hb
    rfl
  | ifClause m c body' =>
    cases hb
    obtain ⟨t, ht⟩ := infer_ok (h.expression (k := 0) rfl) types (some sel)
    simp only [checkedNode, checkMember_ifClause table ht, Node.block?]
  | ifElse m c body' em ebody =>
    cases hb
    obtain ⟨t, ht⟩ := infer_ok (h.expression (k := 0) rfl) types (some sel)
    have hb := (checkBody_ok_iff table sel types.enter_ne_nil body).mpr (h.members rfl)
    simp only [checkedNode, checkMember_ifElse table ht hb, Node.block?]

/-- Every member of a body that is checked to its end is checked with the chain that the members before
it leave. -/
theorem checkBody_at (table : PropertyTable) (sel : String) {types : Types} {body : List Node}
    (hw : Node.areBodyMembers body = true) {k : Nat} {n : Node} (hn : body[k]? = some n) :
    (checkBody table sel types.enter body).tree[k]? =
      some (checkedNode table (some sel) (checkBody table sel types.enter (body.take k)).chain n) := by
  have hok := (checkBody_ok_iff table sel types.enter_ne_nil body).mpr hw
  rw [checkBody_eq_each] at hok
  obtain ⟨-, -, ht⟩ := Passage.each_at hok hn
  have hm := Node.areBodyMembers_iff.mp hw n (List.mem_of_getElem? hn)
  rw [checkBody_eq_each, checkBody_eq_each, checkedNode_member table sel _ hm]
  exact ht

theorem checkMembers_at (table : PropertyTable) {s : Sheet} (hw : s.isWellPlaced = true)
    {types : Types} (hs : types.scopes ≠ []) {k : Nat} {n : Node} (hn : s.members[k]? = some n) :
    (checkMembers table types s.members).tree[k]? =
      some (checkedNode table none (checkMembers table types (s.members.take k)).chain n) := by
  have hok := (checkMembers_ok_iff table hs s.members).mpr hw
  rw [checkMembers_eq_each] at hok
  obtain ⟨-, -, ht⟩ := Passage.each_at hok hn
  have hm := List.all_eq_true.mp hw n (List.mem_of_getElem? hn)
  rw [checkMembers_eq_each, checkMembers_eq_each, checkedNode_sheetMember table _ hm]
  exact ht

theorem checkBody_length (table : PropertyTable) (sel : String) (types : Types) (body : List Node) :
    (checkBody table sel types body).tree.length = body.length := by
  rw [checkBody_eq_each]
  exact Passage.each_length types body

/-- A chain that checking comes to a position with has a scope to bind in. -/
theorem Arrives.ne_nil {table : PropertyTable} {s : Sheet} {p : Position} {sel : Option String}
    {types : Types} (h : Arrives table s p sel types) : types.scopes ≠ [] := by
  induction h with
  | sheetMember hk => exact (checkMembers_sameBelow table _ _).ne_nil (Chain.enter_ne_nil _)
  | ruleMember h hn hk ih => exact (checkBody_sameBelow table _ _ _).ne_nil (Chain.enter_ne_nil _)
  | branchMember h hn hb hk ih =>
    exact (checkBody_sameBelow table _ _ _).ne_nil (Chain.enter_ne_nil _)
  | elseClause h hn ih =>
    rw [inScope_checkBody]
    exact ih
  | expression h hn he ih => exact ih

/-- The checked tree holds at each position what checking makes of the node there. -/
theorem Arrives.at?_checked {table : PropertyTable} {s : Sheet} (hw : s.isWellPlaced = true)
    {p : Position} {sel : Option String} {types : Types} (h : Arrives table s p sel types)
    {n : Node} (hn : s.node.at? p = some n) :
    (s.check table).tree.node.at? p = some (checkedNode table sel types n) := by
  induction h generalizing n with
  | @sheetMember k hk =>
    have hmem : s.members[k]? = some n := by simpa [Sheet.node, Node.at?, Node.children] using hn
    rw [Sheet.check_tree, ← List.nil_append [k], Node.at?_child (Node.at?_nil _)]
    exact checkMembers_at table hw (Chain.enter_ne_nil _) hmem
  | @ruleMember p types m ss body k h hr hk ih =>
    rw [Node.at?_child hr] at hn
    have hbody : Node.areBodyMembers body = true := by
      have := h.placed hw hr
      simpa [Placed, Node.isSheetMember, Node.isValue] using this
    rw [Node.at?_child (ih hr), checkedNode, checkSheetMember_rule]
    exact checkBody_at table _ hbody hn
  | @branchMember p sel types n' first body k h hn' hb hk ih =>
    have hp := h.placed hw hn'
    have hblock : (checkedNode table (some sel) types n').block? =
        some (first, (checkBody table sel types.enter body).tree) := checkedNode_members table hp hb
    rw [Node.at?_child hn', Node.block?_children hb hk] at hn
    have hk' : k < (checkBody table sel types.enter body).tree.length := by
      rw [checkBody_length]
      exact hk
    rw [Node.at?_child (ih hn'), Node.block?_children hblock hk']
    exact checkBody_at table sel (hp.members hb) hn
  | @elseClause p sel types m c body em ebody h hn' ih =>
    have hp := h.placed hw hn'
    obtain ⟨t, ht⟩ := infer_ok (hp.expression (k := 0) rfl) types (some sel)
    have hb := (checkBody_ok_iff table sel types.enter_ne_nil body).mpr (hp.members rfl)
    have he : n = .elseClause em ebody := by
      rw [Node.at?_child hn'] at hn
      simpa [Node.children, eq_comm] using hn
    rw [Node.at?_child (ih hn'), checkedNode, checkMember_ifElse table ht hb, inScope_checkBody, he]
    simp [Node.children, checkBody_length, checkedNode]
  | @expression p sel types n' e k h hn' he ih =>
    have hp := h.placed hw hn'
    rw [Node.at?_child hn', Node.children_of_expressions he] at hn
    obtain rfl := Option.some.inj hn
    rw [Node.at?_child (ih hn'), checkedNode_value table sel types (hp.expression he)]
    exact checkedNode_expression table h.ne_nil hp he

/-- Below the root, only a rule has selectors of its own for what stands in it. -/
theorem selectorAt_child {root n : Node} {p : Position} (hp : p ≠ []) (hn : root.at? p = some n)
    (hr : n.isRule = false) (k : Nat) : root.selectorAt (p ++ [k]) = root.selectorAt p := by
  cases p with
  | nil => exact absurd rfl hp
  | cons j p =>
    cases p with
    | cons i p => rfl
    | nil =>
      have hj : root.children[j]? = some n := by
        rw [← List.nil_append [j], Node.at?_child (Node.at?_nil root)] at hn
        exact hn
      simp only [List.cons_append, List.nil_append, Node.selectorAt, hj]
      cases n <;> simp_all [Node.isRule]

/-- Checking knows the selectors of the rule that it is in. -/
theorem Arrives.selectorAt {table : PropertyTable} {s : Sheet} (hw : s.isWellPlaced = true)
    {p : Position} {sel : Option String} {types : Types} (h : Arrives table s p sel types) :
    p ≠ [] ∧ s.node.selectorAt p = sel := by
  induction h with
  | sheetMember hk => exact ⟨by simp, rfl⟩
  | @ruleMember p types m ss body k h hn hk ih =>
    refine ⟨by simp, ?_⟩
    cases h with
    | @sheetMember j hj =>
      have hj : s.node.children[j]? = some (.rule m ss body) := by
        rw [← List.nil_append [j], Node.at?_child (Node.at?_nil _)] at hn
        exact hn
      simp only [List.cons_append, List.nil_append, Node.selectorAt, hj]
    | @expression p _ _ n e j h hn' he =>
      rw [Node.at?_child hn', Node.children_of_expressions he] at hn
      obtain rfl := Option.some.inj hn
      have hv := (h.placed hw hn').expression he
      simp [Node.isValue] at hv
  | @branchMember p sel types n first body k h hn hb hk ih =>
    have hr : n.isRule = false := by
      have hp := h.placed hw hn
      cases n <;> simp_all [Placed, Node.isRule, Node.isBodyMember, Node.isValue]
    exact ⟨by simp, (selectorAt_child ih.1 hn hr _).trans ih.2⟩
  | elseClause h hn ih => exact ⟨by simp, (selectorAt_child ih.1 hn rfl _).trans ih.2⟩
  | @expression p sel types n e k h hn he ih =>
    have hr : n.isRule = false := by cases n <;> simp_all [Node.isRule, Node.expressions]
    exact ⟨by simp, (selectorAt_child ih.1 hn hr _).trans ih.2⟩

end Typing

end StyleLang
