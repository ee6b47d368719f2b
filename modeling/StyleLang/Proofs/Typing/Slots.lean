import StyleLang.Proofs.Tree.Report
import StyleLang.Proofs.Tree.Slots
import StyleLang.Proofs.Typing.Adequacy

/-!
# Checking and what the slots held

What a node earns is said of names, types and positions, so it is the same in two trees that differ in
their slots only. A check puts it into the slots that are empty and leaves the others, whatever they
hold; so a second check finds no slot left to fill.
-/

namespace StyleLang

open Position

namespace Node

section

variable {a b : Node} (h : a.unmarked = b.unmarked) {x : String} {p q : Position}
include h

theorem assigns_of_unmarked_eq (ha : a.Assigns x q) : b.Assigns x q := by
  obtain ⟨m, e, hn⟩ := ha
  obtain ⟨m', e', hn'⟩ := assignment_of_unmarked_eq h hn
  exact ⟨m', e', hn'⟩

theorem directMember_of_unmarked_eq {k : Nat} (hk : a.DirectMember p k) : b.DirectMember p k := by
  obtain ⟨n, first, members, hn, hb, hle, hlt⟩ := hk
  obtain ⟨n', hn', hsame⟩ := at?_of_unmarked_eq h hn
  obtain ⟨members', hb', hlength⟩ := block?_of_unmarked_eq hsame hb
  exact ⟨n', first, members', hn', hb', hle, hlength ▸ hlt⟩

theorem visible_of_unmarked_eq (hv : a.Visible x q p) : b.Visible x q p := by
  obtain ⟨ha, hlt, c, k, rfl, hk, j, r, rfl, hj⟩ := hv
  exact ⟨assigns_of_unmarked_eq h ha, hlt, c, k, rfl, directMember_of_unmarked_eq h hk, j, r, rfl,
    directMember_of_unmarked_eq h hj⟩

theorem lastVisible_of_unmarked_eq (hv : a.LastVisible x q p) : b.LastVisible x q p :=
  ⟨visible_of_unmarked_eq h hv.visible, fun q' hq' => hv.last q' (visible_of_unmarked_eq h.symm hq')⟩

theorem selectorAt_of_unmarked_eq : a.selectorAt p = b.selectorAt p := by
  match p with
  | [] | [_] => rfl
  | k :: _ :: _ =>
    have hk := congrArg (fun n => n.children[k]?) h
    simp only [children_unmarked, List.getElem?_map] at hk
    cases ha : a.children[k]? with
    | none =>
      cases hb : b.children[k]? with
      | none => simp only [selectorAt, ha, hb]
      | some d => simp [ha, hb] at hk
    | some c =>
      cases hb : b.children[k]? with
      | none => simp [ha, hb] at hk
      | some d =>
        simp only [ha, hb, Option.map_some, Option.some.injEq] at hk
        simp only [selectorAt, ha, hb]
        cases c <;> cases d <;> simp_all [unmarked]

end

end Node

namespace Typing

variable {table : PropertyTable} {a b : Node} {p : Position}

theorem hasType_of_unmarked_eq (h : a.unmarked = b.unmarked) {t : Option ValueType}
    (ht : HasType a p t) : HasType b p t := by
  induction ht with
  | literal hn =>
    obtain ⟨m, hn⟩ := Node.literal_of_unmarked_eq h hn
    exact .literal hn
  | unbound hn hv =>
    obtain ⟨m, hn⟩ := Node.reference_of_unmarked_eq h hn
    exact .unbound hn fun q hq => hv q (Node.visible_of_unmarked_eq h.symm hq)
  | bound hn hq ht ih =>
    obtain ⟨m, hn⟩ := Node.reference_of_unmarked_eq h hn
    exact .bound hn (Node.lastVisible_of_unmarked_eq h hq) ih
  | unknown hn hl hr hst ihl ihr =>
    obtain ⟨m, l, r, hn⟩ := Node.operation_of_unmarked_eq h hn
    exact .unknown hn ihl ihr hst
  | illTyped hn hl hr hst ihl ihr =>
    obtain ⟨m, l, r, hn⟩ := Node.operation_of_unmarked_eq h hn
    exact .illTyped hn ihl ihr hst
  | operation hn hl hr hst ihl ihr =>
    obtain ⟨m, l, r, hn⟩ := Node.operation_of_unmarked_eq h hn
    exact .operation hn ihl ihr hst

theorem earns_of_unmarked_eq (h : a.unmarked = b.unmarked) {d : Diagnostic}
    (hd : Earns table a p d) : Earns table b p d := by
  have hsel : a.selectorAt p = b.selectorAt p := Node.selectorAt_of_unmarked_eq h
  cases hd with
  | undefined hn hv =>
    obtain ⟨m, hn⟩ := Node.reference_of_unmarked_eq h hn
    rw [hsel]
    exact .undefined hn fun q hq => hv q (Node.visible_of_unmarked_eq h.symm hq)
  | operands hn hl hr hd =>
    obtain ⟨m, l, r, hn⟩ := Node.operation_of_unmarked_eq h hn
    rw [hsel] at hd
    exact .operands hn (hasType_of_unmarked_eq h hl) (hasType_of_unmarked_eq h hr) hd
  | @condition n t hn hc ht hb =>
    obtain ⟨n', hn', hsame⟩ := Node.at?_of_unmarked_eq h hn
    have hc' : n'.condition?.isSome := by
      cases n <;> cases n' <;> simp_all [Node.unmarked, Node.condition?]
    rw [hsel]
    exact .condition hn' hc' (hasType_of_unmarked_eq h ht) hb
  | property hn hr ht hne =>
    obtain ⟨m, e, hn⟩ := Node.declaration_of_unmarked_eq h hn
    rw [hsel]
    exact .property hn hr (hasType_of_unmarked_eq h ht) hne

/-- At every position, the root with them, a check fills the slot with what the node earns, unless it is
filled already. -/
theorem check_mark_at (table : PropertyTable) {s : Sheet} (hw : s.isWellPlaced = true) {n : Node}
    (hn : s.node.at? p = some n) :
    ∃ n' d, (s.check table).tree.node.at? p = some n' ∧ n'.mark = n.mark.fill d ∧
      ∀ d', d = some d' ↔ Earns table s.node p d' := by
  by_cases hp : p = []
  · subst hp
    obtain rfl := Option.some.inj hn
    refine ⟨_, none, rfl, ?_, fun d' => ?_⟩
    · rw [Mark.fill_none, Sheet.check_tree]
      rfl
    · have hnot : ¬ Earns table s.node [] d' :=
        not_earns hn (Or.inl rfl) rfl (by simp [Sheet.node])
      simp [hnot]
  · obtain ⟨sel, types, h⟩ := arrives_of_at? table hw hn hp
    obtain ⟨d, hmark, hearns⟩ := h.mark_fill hw hn
    exact ⟨_, d, h.at?_checked hw hn, hmark, hearns⟩

/-- The same is put into the slot at a position of another sheet that differs in slots only. -/
theorem check_marks_at (table : PropertyTable) {s t : Sheet} (h : s.node.unmarked = t.node.unmarked)
    (hw : s.isWellPlaced = true) {n : Node} (hn : s.node.at? p = some n) :
    ∃ n' m m' d, (s.check table).tree.node.at? p = some n' ∧ t.node.at? p = some m ∧
      (t.check table).tree.node.at? p = some m' ∧ n'.mark = n.mark.fill d ∧ m'.mark = m.mark.fill d := by
  obtain ⟨n', d, hn', hd, hearns⟩ := check_mark_at table hw hn
  obtain ⟨m, hm, -⟩ := Node.at?_of_unmarked_eq h hn
  obtain ⟨m', d', hm', hd', hearns'⟩ :=
    check_mark_at table (Sheet.isWellPlaced_of_unmarked_eq h hw) hm
  have hsame : d = d' := by
    refine Option.ext fun e => ?_
    rw [hearns, hearns']
    exact ⟨earns_of_unmarked_eq h, earns_of_unmarked_eq h.symm⟩
  exact ⟨n', m, m', d, hn', hm, hm', hd, hsame ▸ hd'⟩

end Typing

theorem Sheet.check_unmarked (table : PropertyTable) (s : Sheet) :
    (s.check table).tree.node.unmarked = s.node.unmarked :=
  of_decide_eq_true (s.check_same table)

theorem Mark.fill_fill (m d : Mark) : Mark.fill (m.fill d) d = m.fill d := by
  cases m <;> cases d <;> rfl

/-- A check leaves a slot filled if it was filled before, or if the node earns a diagnostic. -/
theorem Sheet.check_filled {s : Sheet} (hw : s.isWellPlaced = true) (table : PropertyTable) (p : Position) :
    (∃ d, (s.check table).tree.node.FilledWith p d) ↔
      (∃ d, s.node.FilledWith p d) ∨ ∃ d, Typing.Earns table s.node p d := by
  cases hn : s.node.at? p with
  | none =>
    constructor
    · rintro ⟨d, n', hn', hd⟩
      obtain ⟨n, hn'', -⟩ := Node.at?_of_unmarked_eq (s.check_unmarked table) hn'
      simp [hn] at hn''
    · rintro (⟨d, n, hn', hd⟩ | ⟨d, hd⟩)
      · simp [hn] at hn'
      · cases hd <;> simp_all
  | some n =>
    obtain ⟨n', d, hn', hmark, hearns⟩ := Typing.check_mark_at table hw hn
    simp only [Node.FilledWith, hn', hn, Option.some.injEq, exists_eq_left', ← hearns, hmark]
    cases n.mark <;> cases d <;> simp [Mark.fill]

/-- After two checks a slot is filled if it was before, or if either check by itself would fill it. -/
theorem Sheet.check_check_filled {s : Sheet} (hw : s.isWellPlaced = true) (first second : PropertyTable)
    (p : Position) :
    (∃ d, ((s.check first).tree.check second).tree.node.FilledWith p d) ↔
      (∃ d, s.node.FilledWith p d) ∨ (∃ d, Typing.Earns first s.node p d) ∨
        ∃ d, Typing.Earns second s.node p d := by
  have hsame := s.check_unmarked first
  have hw' := Sheet.isWellPlaced_of_unmarked_eq hsame.symm hw
  have hearns : (∃ d, Typing.Earns second (s.check first).tree.node p d) ↔
      ∃ d, Typing.Earns second s.node p d :=
    exists_congr fun d => ⟨Typing.earns_of_unmarked_eq hsame, Typing.earns_of_unmarked_eq hsame.symm⟩
  rw [Sheet.check_filled hw' second p, Sheet.check_filled hw first p, hearns, or_assoc]

/-- The tree that a check leaves, said through the tree that a check leaves if all slots are emptied before:
a slot that was filled holds what it held, and any other what it holds there. -/
structure Sheet.FillsEmpty (table : PropertyTable) (s : Sheet) : Prop where
  ended : (s.check table).result = .ok ()
  endedUnmarked : (s.unmarked.check table).result = .ok ()
  same : (s.check table).tree.node.same s.node = true
  slots : ∀ p n, s.node.at? p = some n → ∃ n' e, (s.check table).tree.node.at? p = some n' ∧
    (s.unmarked.check table).tree.node.at? p = some e ∧
    (∀ d, n.mark = some d → n'.mark = some d) ∧ (n.mark = none → n'.mark = e.mark)

theorem Sheet.fillsEmpty {s : Sheet} (hw : s.isWellPlaced = true) (table : PropertyTable) :
    s.FillsEmpty table where
  ended := (s.check_ok_iff table).mpr hw
  endedUnmarked := (s.unmarked.check_ok_iff table).mpr (by rw [Sheet.isWellPlaced_unmarked, hw])
  same := s.check_same table
  slots p n hn := by
    have hsame : s.node.unmarked = s.unmarked.node.unmarked := by
      rw [Sheet.node_unmarked, Node.unmarked_unmarked]
    obtain ⟨n', m, e, d, hn', hm, he, hmark, hempty⟩ := Typing.check_marks_at table hsame hw hn
    have hnone : m.mark = none := by
      rw [Sheet.node_unmarked, Node.at?_unmarked, hn] at hm
      rw [← Option.some.inj hm, Node.mark_unmarked]
    refine ⟨n', e, hn', he, fun d' hd' => ?_, fun hd' => ?_⟩
    · rw [hmark, hd']
      rfl
    · rw [hmark, hempty, hd', hnone]

/-- A second check with the same table changes nothing. -/
theorem Sheet.check_check {s : Sheet} (hw : s.isWellPlaced = true) (table : PropertyTable) :
    ((s.check table).tree.check table).tree = (s.check table).tree := by
  have hsame := (s.check_unmarked table).symm
  have hw' := Sheet.isWellPlaced_of_unmarked_eq hsame hw
  have hnode : ((s.check table).tree.check table).tree.node = (s.check table).tree.node := by
    refine Node.eq_of_marks (Sheet.check_unmarked table _) fun p n n' hn hn' => ?_
    -- all three trees are looked at from the slot of the first of them
    obtain ⟨m, hm, -⟩ := Node.at?_of_unmarked_eq hsame.symm hn'
    obtain ⟨n₁, m₁, m₂, d, hn₁, hm₁, hm₂, hd₁, hd₂⟩ := Typing.check_marks_at table hsame hw hm
    cases hn₁.symm.trans hn'
    cases hm₁.symm.trans hn'
    cases hm₂.symm.trans hn
    rw [hd₂, hd₁, Mark.fill_fill]
  simp only [Sheet.node, Node.sheet.injEq] at hnode
  exact congrArg₂ Sheet.mk hnode.1 hnode.2

/-- Checking a well-placed sheet fills empty slots only, with what it puts there if all are emptied before.
Doing it twice is doing it once, and the order of two tables does not matter for which slots are filled. -/
theorem check_fillsEmpty (s : Sheet) (hw : s.isWellPlaced = true) :
    (∀ table, s.FillsEmpty table) ∧
      (∀ table, ((s.check table).tree.check table).tree = (s.check table).tree) ∧
      ∀ first second p,
        (∃ d, ((s.check first).tree.check second).tree.node.FilledWith p d) ↔
          ∃ d, ((s.check second).tree.check first).tree.node.FilledWith p d := by
  refine ⟨Sheet.fillsEmpty hw, Sheet.check_check hw, fun first second p => ?_⟩
  rw [Sheet.check_check_filled hw, Sheet.check_check_filled hw]
  exact or_congr_right or_comm

/-- A declaration keeps what it holds although the check finds a fault in it, and the undefined variable
in it, whose slot is empty, is found all the same. -/
theorem check_fillsEmpty_held :
    let held : Diagnostic := ⟨"held", .type, "", none⟩
    let s : Sheet := ⟨none,
      [.rule none [.tag "p"] [.declaration (some held) "width" (.reference none "A")]]⟩
    s.isWellPlaced = true ∧ (s.check .builtin).tree.node.FilledWith [0, 0] held ∧
      (s.check .builtin).tree.node.FilledWith [0, 0, 0]
        ⟨"undefined_variable", .unresolved, "Variable A is not defined", some "p"⟩ := by
  intro held s
  have hw : s.isWellPlaced = true := rfl
  have hslots := ((check_fillsEmpty s hw).1 .builtin).slots
  refine ⟨hw, ?_, ?_⟩
  · obtain ⟨n', e, hn', -, hheld, -⟩ := hslots [0, 0] _ rfl
    exact ⟨n', hn', hheld held rfl⟩
  · obtain ⟨n', e, hn', he, -, hempty⟩ := hslots [0, 0, 0] _ rfl
    refine ⟨n', hn', (hempty rfl).trans ?_⟩
    cases he
    rfl

end StyleLang
