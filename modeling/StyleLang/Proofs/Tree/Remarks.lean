import StyleLang.Proofs.Tree.Rows
import StyleLang.Proofs.Tree.Slots
import StyleLang.Proofs.Typing.Pass

/-!
# What an outline marks

The rows of an outline are those of the statements in document order, and each ends in the message that
the statement's own slot holds. What the slots of expressions hold has no place in it, so after a check
an outline may be free of marks although the sheet has a diagnostic.
-/

namespace StyleLang

namespace Node

/-- The line is made of spaces, the title of the node and what the node's slot adds. -/
def IsShownBy (n : Node) (line : String) : Prop :=
  ∃ level text, n.title = .ok text ∧ line = Row.line 0 ⟨level, text ++ remark n.mark⟩

theorem IsRowOf.isShownBy {n : Node} {r : Row} (h : n.IsRowOf r) : n.IsShownBy (Row.line 0 r) := by
  obtain ⟨text, htext, hr⟩ := h
  exact ⟨r.level, text, htext, by rw [← hr]⟩

/-- Below a statement where nothing is misplaced there are statements and expressions. -/
theorem placed_at? {root n : Node} {p : Position}
    (h : root.isValue = true ∨ root.isStatement = true ∧ root.Clean none) (hn : root.at? p = some n) :
    n.isValue = true ∨ n.isStatement = true ∧ n.Clean none := by
  induction p generalizing root with
  | nil =>
    obtain rfl := Option.some.inj hn
    exact h
  | cons k p ih =>
    obtain ⟨c, hc, hn⟩ := Option.bind_eq_some_iff.mp hn
    have hclean : root.Clean none := h.elim clean_of_isValue And.right
    exact ih ((child_of_clean hclean (List.mem_of_getElem? hc)).imp_right (statement_of_under hclean)) hn

end Node

/-- An outline of a checked sheet has a line for each statement, which ends in what the statement's slot
holds. So a diagnostic is shown unless it is that of an expression. -/
theorem Sheet.outline_remarks (table : PropertyTable) {s : Sheet} (hs : s.isWellPlaced = true)
    {lines : List String} (h : (s.check table).tree.outline = .ok lines) :
    List.Forall₂ Node.IsShownBy (s.check table).tree.node.statements lines ∧
      ∀ p d, (s.check table).tree.node.FilledWith p d →
        ∃ n, (s.check table).tree.node.at? p = some n ∧
          ((∃ line ∈ lines, n.IsShownBy line) ∨ n.isExpression = true) := by
  have hplaced : (s.check table).tree.isWellPlaced = true :=
    isWellPlaced_of_unmarked_eq (of_decide_eq_true (check_same table s)).symm hs
  have hclean := clean_iff.mpr hplaced
  have hlines : List.Forall₂ Node.IsShownBy (s.check table).tree.node.statements lines := by
    obtain ⟨rs, hrs, rfl⟩ := outline_ok_iff.mp h
    have hrows := Node.rows_statements rfl hclean hrs
    exact List.forall₂_map_right_iff.mpr (hrows.imp fun _ _ h => h.isShownBy)
  refine ⟨hlines, fun p d hfilled => ?_⟩
  obtain ⟨n, hn, -⟩ := hfilled
  refine ⟨n, hn, ?_⟩
  rcases Node.placed_at? (Or.inr ⟨rfl, hclean⟩) hn with hvalue | ⟨hstatement, -⟩
  · exact Or.inr (Node.isExpression_of_isValue hvalue)
  · have hmem : n ∈ (s.check table).tree.node.statements :=
      List.mem_filter.mpr ⟨Node.mem_walk_of_at? hn, hstatement⟩
    exact Or.inl (Node.exists_related hlines hmem)

/-- The name is not defined, which is said of the reference and so on no line. -/
theorem outline_hides_undefined :
    let s : Sheet := ⟨none, [.rule none [.tag "p"] [.declaration none "margin" (.reference none "X")]]⟩
    s.isWellPlaced = true ∧
      (s.check .builtin).tree.node.diagnostics = [Typing.undefinedVariable "X" (some "p")] ∧
      (s.check .builtin).tree.outline =
        .ok ["Stylesheet", "  Stylerule p", "    Declaration margin: X"] := by
  decide +kernel

/-- Of two diagnostics that a check finds in one if-clause, the outline shows the one that is its own. -/
theorem outline_remarks_condition :
    let s : Sheet := ⟨none, [.rule none [.tag "p"] [.ifClause none (.reference none "X") []]]⟩
    let t := (s.check .builtin).tree
    s.isWellPlaced = true ∧ t.node.FilledWith [0, 0, 0] (Typing.undefinedVariable "X" (some "p")) ∧
      List.Forall₂ Node.IsShownBy t.node.statements
        ["Stylesheet", "  Stylerule p", "    If [X]  !! If-clause condition must be a boolean"] := by
  intro s t
  have hwell : s.isWellPlaced = true := by decide +kernel
  have houtline : t.outline =
      .ok ["Stylesheet", "  Stylerule p", "    If [X]  !! If-clause condition must be a boolean"] := by
    decide +kernel
  exact ⟨hwell, ⟨_, rfl, rfl⟩, (Sheet.outline_remarks .builtin hwell houtline).1⟩

end StyleLang
