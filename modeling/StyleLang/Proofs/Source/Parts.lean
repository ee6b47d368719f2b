import StyleLang.Proofs.Source.Grammar
import StyleLang.Proofs.Tree.Placement

/-!
# Parts of sheets that have spellings

A sheet in parser form is well placed, and whatever stands at a position of it is itself of one of the
forms, so the names, colors and selectors at all positions are lexemes.
-/

namespace StyleLang.Source

variable {R : Node → Node → Prop}

theorem isValue_of_product {n : Node} (h : ProductForm n) : n.isValue = true := by
  have hatom : ∀ {n}, AtomForm n → n.isValue = true := by
    intro n h
    cases h <;> rfl
  induction h with
  | atom h => exact hatom h
  | times hl hr ih => rw [Node.isValue, ih, hatom hr, Bool.and_self]

theorem isValue_of_sum {n : Node} (h : SumForm n) : n.isValue = true := by
  induction h with
  | product h => exact isValue_of_product h
  | sum hop hl hr ih => rw [Node.isValue, ih, isValue_of_product hr, Bool.and_self]

theorem isBodyMember_of_form {n : Node} (h : MemberForm R n) : n.isBodyMember = true := by
  induction h with
  | declaration hp hif he => exact isValue_of_sum he
  | assignment hx he => exact isValue_of_sum he
  | ifClause hc hbody hchain ih =>
    rw [Node.isBodyMember, isValue_of_sum hc, Node.areBodyMembers_iff.mpr ih, Bool.and_self]
  | ifElse hc hbody hchain hebody hechain ih ihe =>
    rw [Node.isBodyMember, isValue_of_sum hc, Node.areBodyMembers_iff.mpr ih,
      Node.areBodyMembers_iff.mpr ihe, Bool.and_self, Bool.and_self]

theorem isWellPlaced_of_form {s : Sheet} (h : SheetForm R s) : s.isWellPlaced = true := by
  refine List.all_eq_true.mpr fun n hn => ?_
  cases h.members n hn with
  | assignment hx he => exact isValue_of_sum he
  | rule hss hbody =>
    exact Node.areBodyMembers_iff.mpr fun n hn => isBodyMember_of_form (hbody.members n hn)

/-- The forms of all that stands in a sheet. -/
inductive PartForm (R : Node → Node → Prop) : Node → Prop
  | sheet {m members} (h : SheetForm R ⟨m, members⟩) : PartForm R (.sheet m members)
  | sheetMember {n} (h : SheetMemberForm R n) : PartForm R n
  | member {n} (h : MemberForm R n) : PartForm R n
  | elseClause {m body} (h : ∀ n ∈ body, MemberForm R n) : PartForm R (.elseClause m body)
  | expression {n} (h : SumForm n) : PartForm R n

theorem SumForm.child {n c : Node} (h : SumForm n) (hc : c ∈ n.children) : SumForm c := by
  cases h with
  | product h =>
    cases h with
    | atom h => cases h <;> cases hc
    | times hl hr =>
      rcases List.mem_pair.mp hc with rfl | rfl
      · exact .product hl
      · exact .product (.atom hr)
  | sum hop hl hr =>
    rcases List.mem_pair.mp hc with rfl | rfl
    · exact hl
    · exact .product hr

theorem MemberForm.child {n c : Node} (h : MemberForm R n) (hc : c ∈ n.children) : PartForm R c := by
  cases h with
  | declaration _ _ he | assignment _ he =>
    obtain rfl := List.mem_singleton.mp hc
    exact .expression he
  | ifClause hcond hbody _ =>
    rcases List.mem_cons.mp hc with rfl | hc
    · exact .expression hcond
    · exact .member (hbody c hc)
  | ifElse hcond hbody _ hebody _ =>
    rcases List.mem_cons.mp hc with rfl | hc
    · exact .expression hcond
    rcases List.mem_append.mp hc with hc | hc
    · exact .member (hbody c hc)
    · obtain rfl := List.mem_singleton.mp hc
      exact .elseClause hebody

theorem PartForm.child {n c : Node} (h : PartForm R n) (hc : c ∈ n.children) : PartForm R c := by
  cases h with
  | sheet h => exact .sheetMember (h.members c hc)
  | sheetMember h =>
    cases h with
    | assignment _ he =>
      obtain rfl := List.mem_singleton.mp hc
      exact .expression he
    | rule _ hbody => exact .member (hbody.members c hc)
  | member h => exact h.child hc
  | elseClause h => exact .member (h c hc)
  | expression h => exact .expression (h.child hc)

theorem PartForm.at? {root n : Node} {p : Position} (h : PartForm R root)
    (hn : root.at? p = some n) : PartForm R n := by
  induction p generalizing root with
  | nil =>
    obtain rfl := Option.some.inj hn
    exact h
  | cons k p ih =>
    obtain ⟨c, hc, hn⟩ := Option.bind_eq_some_iff.mp hn
    exact ih (h.child (List.mem_of_getElem? hc)) hn

theorem SheetForm.at? {s : Sheet} {n : Node} {p : Position} (h : SheetForm R s)
    (hn : s.node.at? p = some n) : PartForm R n :=
  PartForm.at? (.sheet h) hn

theorem PartForm.property {m : Mark} {p : String} {e : Node} (h : PartForm R (.declaration m p e)) :
    isTagText p.toList = true ∧ p ≠ "if" := by
  cases h with
  | sheetMember h => cases h
  | member h =>
    cases h with
    | declaration hp hif _ => exact ⟨hp, hif⟩
  | expression h => cases isValue_of_sum h

theorem PartForm.color {m : Mark} {s : String} (h : PartForm R (.literal m (.color s))) :
    isColorText s.toList = true := by
  cases h with
  | sheetMember h => cases h
  | member h => cases h
  | expression h =>
    cases h with
    | product h =>
      cases h with
      | atom h =>
        cases h with
        | color hs => exact hs

theorem PartForm.selectors {m : Mark} {ss : List Selector} {body : List Node}
    (h : PartForm R (.rule m ss body)) : SelectorsForm ss := by
  cases h with
  | sheetMember h =>
    cases h with
    | rule hss _ => exact hss
  | member h => cases h
  | expression h => cases isValue_of_sum h

end StyleLang.Source
