import Mathlib.Data.List.Forall2
import StyleLang.Proofs.Tree.Misplaced
import StyleLang.Proofs.Tree.Outline

/-!
# The rows of an outline

A statement has a row, made of a title and what its slot adds, and after it the rows of its children that
are statements, one level below. Expressions have no rows: they are part of the title above them. A
well-placed tree has an outline unless a number in it is too long to be written.
-/

namespace StyleLang

namespace Node

/-- No number in the tree is too long to be written. -/
def IsWritable (root : Node) : Prop := ∀ n ∈ root.walk, ∀ m v, n = .literal m v → ¬ v.IsTooLong

theorem IsWritable.child {n c : Node} (h : n.IsWritable) (hc : c ∈ n.children) : c.IsWritable :=
  fun d hd => h d (mem_walk_iff.mpr (Or.inr ⟨c, hc, hd⟩))

theorem inline_operation {m : Mark} {op : Operator} {l r : Node} {text : String} :
    (operation m op l r).inline = .ok text ↔ ∃ left right, l.inline = .ok left ∧ r.inline = .ok right ∧
      text = "(" ++ left ++ " " ++ op.symbol ++ " " ++ right ++ ")" :=
  Css.both_eq_ok

/-- An expression is written on one line unless a number in it is too long. -/
theorem inline_error {e : Node} (he : e.isValue = true) {f : Fault} (h : e.inline = .error f) :
    f = .tooLong ∧ ¬ e.IsWritable := by
  cases e with
  | literal m v =>
    cases hv : v.css? with
    | none =>
      simp only [inline, Css.value, hv, Except.map] at h
      exact ⟨(Except.error.inj h).symm, fun hw =>
        hw _ (mem_walk_iff.mpr (Or.inl rfl)) m v rfl (Literal.css?_eq_none_iff.mp hv)⟩
    | some text => simp [inline, Css.value, hv, Except.map] at h
  | reference m x => cases h
  | operation m op l r =>
    rw [isValue, Bool.and_eq_true] at he
    cases hl : l.inline with
    | error f' =>
      simp only [inline, hl, bind, Except.bind] at h
      cases h
      obtain ⟨rfl, hlong⟩ := inline_error he.1 hl
      exact ⟨rfl, fun hw => hlong (hw.child (by simp [children]))⟩
    | ok left =>
      cases hr : r.inline with
      | error f' =>
        simp only [inline, hl, hr, bind, Except.bind] at h
        cases h
        obtain ⟨rfl, hlong⟩ := inline_error he.2 hr
        exact ⟨rfl, fun hw => hlong (hw.child (by simp [children]))⟩
      | ok right => simp [inline, hl, hr, bind, Except.bind, pure, Except.pure] at h
  | declaration | assignment | ifClause | ifElse | elseClause | rule | sheet | foreign => cases he

theorem isExpression_of_isValue {e : Node} (h : e.isValue = true) : e.isExpression = true := by
  cases e <;> first | rfl | cases h

/-- The text of a statement's row, without what its slot adds. -/
def title : Node → Except Fault String
  | sheet _ _ => .ok "Stylesheet"
  | rule _ ss _ => .ok ("Stylerule " ++ Selector.textAll ss)
  | declaration _ p e => e.inline.map fun value => "Declaration " ++ p ++ ": " ++ value
  | assignment _ x e => e.inline.map fun value => "Assignment " ++ x ++ " := " ++ value
  | ifClause _ c _ => c.inline.map fun condition => "If [" ++ condition ++ "]"
  | ifElse _ c _ _ _ => c.inline.map fun condition => "If [" ++ condition ++ "]"
  | elseClause _ _ => .ok "Else"
  | other => .error (.outlined other)

/-- The statements directly under a node. -/
def under : Node → List Node
  | sheet _ members => members
  | rule _ _ body => body
  | ifClause _ _ body => body
  | ifElse _ _ body em ebody => body ++ [elseClause em ebody]
  | elseClause _ body => body
  | _ => []

section

variable {level : Nat}

theorem rowsAll_append (ns ms : List Node) : rowsAll level (ns ++ ms) = do
    let first ← rowsAll level ns
    let others ← rowsAll level ms
    return first ++ others := by
  induction ns with
  | nil => cases h : rowsAll level ms <;> simp [rowsAll, h, bind, Except.bind, pure, Except.pure]
  | cons n ns ih =>
    rw [List.cons_append, rowsAll, rowsAll, ih]
    split
    · rfl
    · cases n.rows level with
      | error f => rfl
      | ok first =>
        cases rowsAll level ns with
        | error f => rfl
        | ok others => cases rowsAll level ms <;> simp [bind, Except.bind, pure, Except.pure]

/-- The row of a statement and, one level below, the rows of the statements directly below it. -/
theorem rows_eq (n : Node) : n.rows level = do
    let text ← n.title
    let others ← rowsAll (level + 1) n.under
    return ⟨level, text ++ remark n.mark⟩ :: others := by
  cases n with
  | sheet | rule | elseClause => rfl
  | declaration m p e | assignment m x e | ifClause m e body =>
    rw [rows, title]
    cases e.inline <;> rfl
  | ifElse m c body em ebody =>
    have helse : rowsAll (level + 1) [elseClause em ebody] = do
        let others ← rowsAll (level + 2) ebody
        return ⟨level + 1, "Else" ++ remark em⟩ :: others := by
      rw [rowsAll, if_neg (by simp [isExpression]), rows, rowsAll]
      cases rowsAll (level + 2) ebody <;> simp [bind, Except.bind, pure, Except.pure]
    rw [title, under, mark, rowsAll_append, helse, rows]
    cases c.inline with
    | error f => rfl
    | ok condition =>
      cases rowsAll (level + 1) body with
      | error f => rfl
      | ok others => cases rowsAll (level + 2) ebody <;> rfl
  | literal | reference | operation | foreign => rfl

theorem rows_ok_iff {n : Node} {rs : List Row} : n.rows level = .ok rs ↔
    ∃ text others, n.title = .ok text ∧ rowsAll (level + 1) n.under = .ok others ∧
      rs = ⟨level, text ++ remark n.mark⟩ :: others := by
  rw [rows_eq]
  exact Css.both_eq_ok

theorem rowsAll_statement_iff {n : Node} (hn : n.isExpression = false) {ns : List Node}
    {rs : List Row} : rowsAll level (n :: ns) = .ok rs ↔
      ∃ first others, n.rows level = .ok first ∧ rowsAll level ns = .ok others ∧
        rs = first ++ others := by
  rw [rowsAll, if_neg (by rw [hn]; exact Bool.false_ne_true)]
  exact Css.both_eq_ok

end

/-- The nodes that have a title. -/
def isStatement : Node → Bool
  | literal _ _ => false
  | reference _ _ => false
  | operation _ _ _ _ => false
  | foreign _ => false
  | _ => true

theorem isExpression_of_isStatement {n : Node} (h : n.isStatement = true) : n.isExpression = false := by
  cases n <;> first | rfl | cases h

theorem clean_of_isValue {e : Node} (he : e.isValue = true) : e.Clean none :=
  clean_iff.mpr ⟨nofun, (clean_iff.mp ((clean_expression_iff e).mpr he)).2⟩

section

variable {n c : Node}

theorem under_subset (hc : c ∈ n.under) : c ∈ n.children := by
  cases n with
  | ifElse m e body em ebody => exact List.mem_cons_of_mem e hc
  | ifClause m e body => exact List.mem_cons_of_mem e hc
  | sheet | rule | elseClause => exact hc
  | literal | reference | operation | declaration | assignment | foreign => cases hc

theorem fits_child {k : Nat} {r : Role} (h : n.Clean none) (hc : n.children[k]? = some c)
    (hr : n.asks k = some r) : r.fits c = true := by
  have hclean := (clean_iff.mp h).2 k c hc
  rw [hr] at hclean
  exact (clean_some_iff.mp hclean).1

/-- What stands directly under a node fits the role of a member, unless it is the node's else-clause. -/
theorem fits_of_under (h : n.Clean none) (hc : c ∈ n.under) :
    (∃ r : Role, r ≠ .expression ∧ r.fits c = true) ∨ ∃ m e body em ebody, n = ifElse m e body em ebody ∧ c = elseClause em ebody := by
  cases n with
  | sheet m body =>
    obtain ⟨k, hk⟩ := List.mem_iff_getElem?.mp hc
    exact Or.inl ⟨.sheetMember, nofun, fits_child h hk rfl⟩
  | rule m ss body =>
    obtain ⟨k, hk⟩ := List.mem_iff_getElem?.mp hc
    exact Or.inl ⟨.bodyMember, nofun, fits_child h hk rfl⟩
  | elseClause m body =>
    obtain ⟨k, hk⟩ := List.mem_iff_getElem?.mp hc
    exact Or.inl ⟨.bodyMember, nofun, fits_child h hk rfl⟩
  | ifClause m e body =>
    obtain ⟨k, hk⟩ := List.mem_iff_getElem?.mp hc
    exact Or.inl ⟨.bodyMember, nofun, fits_child h (k := k + 1) hk rfl⟩
  | ifElse m e body em ebody =>
    rcases List.mem_append.mp hc with hc | hc
    · obtain ⟨k, hk, rfl⟩ := List.getElem_of_mem hc
      have hchild : (ifElse m e body em ebody).children[k + 1]? = some body[k] := by
        rw [children, List.cons_append, List.getElem?_cons_succ, List.getElem?_append_left hk,
          List.getElem?_eq_getElem hk]
      exact Or.inl ⟨.bodyMember, nofun, fits_child h hchild (asks_body hk)⟩
    · exact Or.inr ⟨m, e, body, em, ebody, rfl, List.mem_singleton.mp hc⟩
  | literal | reference | operation | declaration | assignment | foreign => cases hc

theorem statement_of_under (h : n.Clean none) (hc : c ∈ n.under) :
    c.isStatement = true ∧ c.Clean none := by
  obtain ⟨k, hk⟩ := List.mem_iff_getElem?.mp (under_subset hc)
  refine ⟨?_, clean_iff.mpr ⟨nofun, (clean_iff.mp ((clean_iff.mp h).2 k c hk)).2⟩⟩
  rcases fits_of_under h hc with ⟨r, hr, hfits⟩ | ⟨-, -, -, em, ebody, -, rfl⟩
  · cases r with
    | expression => exact absurd rfl hr
    | bodyMember | sheetMember => cases c <;> first | rfl | cases hfits
  · rfl

/-- The children of a node below which nothing is misplaced that are not statements are expressions. -/
theorem child_of_clean (h : n.Clean none) (hc : c ∈ n.children) : c.isValue = true ∨ c ∈ n.under := by
  have hvalue : ∀ {k : Nat}, n.children[k]? = some c → n.asks k = some .expression →
      c.isValue = true := by
    intro k hk hasks
    have hclean := (clean_iff.mp h).2 k c hk
    rw [hasks] at hclean
    exact (clean_expression_iff c).mp hclean
  cases n with
  | operation | declaration | assignment =>
    obtain ⟨k, hk⟩ := List.mem_iff_getElem?.mp hc
    exact Or.inl (hvalue hk rfl)
  | ifClause | ifElse =>
    rcases List.mem_cons.mp hc with rfl | hc
    · exact Or.inl (hvalue (k := 0) rfl rfl)
    · exact Or.inr hc
  | sheet | rule | elseClause => exact Or.inr hc
  | literal | reference | foreign => cases hc

end

theorem title_error {n : Node} (hn : n.isStatement = true) (h : n.Clean none) {f : Fault}
    (hf : n.title = .error f) : f = .tooLong ∧ ¬ n.IsWritable := by
  have hfirst := (clean_iff.mp h).2 0
  have hinline : ∀ {e : Node} {wrap : String → String}, e ∈ n.children → e.Clean (some .expression) →
      e.inline.map wrap = .error f → f = .tooLong ∧ ¬ n.IsWritable := by
    intro e wrap hmem he herror
    cases hi : e.inline with
    | ok text => simp [hi, Except.map] at herror
    | error f' =>
      rw [hi] at herror
      cases herror
      obtain ⟨rfl, hlong⟩ := inline_error ((clean_expression_iff e).mp he) hi
      exact ⟨rfl, fun hw => hlong (hw.child hmem)⟩
  cases n with
  | sheet | rule | elseClause => cases hf
  | declaration m p e | assignment m x e | ifClause m e body | ifElse m e body em ebody =>
    exact hinline (by simp [children]) (hfirst e rfl) hf
  | literal | reference | operation | foreign => cases hn

/-- A statement below which nothing is misplaced has its rows, unless a number is too long. -/
theorem rows_error {n : Node} (hn : n.isStatement = true) (h : n.Clean none) {level : Nat} {f : Fault}
    (hf : n.rows level = .error f) : f = .tooLong ∧ ¬ n.IsWritable := by
  induction n using children_induction generalizing level f with
  | h n ih =>
    -- the rows of the statements below, taken one after another
    have hall : ∀ ns : List Node, (∀ c ∈ ns, c ∈ n.under) →
        rowsAll (level + 1) ns = .error f → f = .tooLong ∧ ¬ n.IsWritable := by
      intro ns hns herror
      induction ns with
      | nil => cases herror
      | cons c ns ihns =>
        obtain ⟨hc, hns⟩ := List.forall_mem_cons.mp hns
        obtain ⟨hstatement, hclean⟩ := statement_of_under h hc
        rw [rowsAll, if_neg (by simp [isExpression_of_isStatement hstatement])] at herror
        cases hfirst : c.rows (level + 1) with
        | error f' =>
          rw [hfirst] at herror
          cases herror
          obtain ⟨rfl, hlong⟩ := ih c (under_subset hc) hstatement hclean hfirst
          exact ⟨rfl, fun hw => hlong (hw.child (under_subset hc))⟩
        | ok first =>
          cases hothers : rowsAll (level + 1) ns with
          | error f' =>
            rw [hfirst, hothers] at herror
            cases herror
            exact ihns hns hothers
          | ok others => simp [hfirst, hothers, bind, Except.bind, pure, Except.pure] at herror
    rw [rows_eq] at hf
    cases htitle : n.title with
    | error f' =>
      rw [htitle] at hf
      cases hf
      exact title_error hn h htitle
    | ok text =>
      cases hothers : rowsAll (level + 1) n.under with
      | error f' =>
        rw [htitle, hothers] at hf
        cases hf
        exact hall n.under (fun _ => id) hothers
      | ok others => simp [htitle, hothers, bind, Except.bind, pure, Except.pure] at hf

/-- The statements from a node downwards, in document order. -/
def statements (n : Node) : List Node := n.walk.filter isStatement

/-- The row is made of the title of the node and of what the node's slot adds. -/
def IsRowOf (n : Node) (r : Row) : Prop := ∃ text, n.title = .ok text ∧ r.text = text ++ remark n.mark

theorem statements_of_isValue {e : Node} (he : e.isValue = true) : e.statements = [] := by
  cases e with
  | literal | reference =>
    rw [statements, walk_eq]
    rfl
  | operation m op l r =>
    rw [isValue, Bool.and_eq_true] at he
    have hl := statements_of_isValue he.1
    have hr := statements_of_isValue he.2
    rw [statements] at hl hr
    rw [statements, walk_eq]
    simp [isStatement, children, hl, hr]
  | declaration | assignment | ifClause | ifElse | elseClause | rule | sheet | foreign => cases he

/-- The statement itself comes first, and then the statements from each of those directly under it on. -/
theorem statements_eq {n : Node} (hn : n.isStatement = true) (h : n.Clean none) :
    n.statements = n :: n.under.flatMap statements := by
  have hchildren : n.children.flatMap statements = n.under.flatMap statements := by
    have hfirst : ∀ {e : Node}, e.Clean (some .expression) → e.statements = [] :=
      fun he => statements_of_isValue ((clean_expression_iff _).mp he)
    cases n with
    | declaration m p e | assignment m x e =>
      rw [children, List.flatMap_singleton, hfirst ((clean_iff.mp h).2 0 e rfl)]
      rfl
    | ifClause m e body | ifElse m e body em ebody =>
      have he := hfirst ((clean_iff.mp h).2 0 e rfl)
      simp only [children, under, List.cons_append, List.flatMap_cons, he, List.nil_append]
    | sheet | rule | elseClause => rfl
    | literal | reference | operation | foreign => cases hn
  rw [statements, walk_eq, List.filter_cons, if_pos hn, List.filter_flatMap]
  exact congrArg (n :: ·) hchildren

/-- Each row of a statement is that of one statement at it or below, and they come in document order. -/
theorem rows_statements {n : Node} (hn : n.isStatement = true) (h : n.Clean none) {level : Nat}
    {rs : List Row} (hrs : n.rows level = .ok rs) : List.Forall₂ IsRowOf n.statements rs := by
  induction n using children_induction generalizing level rs with
  | h n ih =>
    have hall : ∀ ns : List Node, (∀ c ∈ ns, c ∈ n.under) → ∀ others,
        rowsAll (level + 1) ns = .ok others → List.Forall₂ IsRowOf (ns.flatMap statements) others := by
      intro ns hns
      induction ns with
      | nil =>
        rintro others ⟨⟩
        exact .nil
      | cons c ns ihns =>
        intro below hbelow
        obtain ⟨hc, hns⟩ := List.forall_mem_cons.mp hns
        obtain ⟨hstatement, hclean⟩ := statement_of_under h hc
        obtain ⟨first, others, hfirst, hothers, rfl⟩ :=
          (rowsAll_statement_iff (isExpression_of_isStatement hstatement)).mp hbelow
        rw [List.flatMap_cons]
        exact List.rel_append (ih c (under_subset hc) hstatement hclean hfirst) (ihns hns others hothers)
    obtain ⟨text, others, htext, hothers, rfl⟩ := rows_ok_iff.mp hrs
    rw [statements_eq hn h]
    exact .cons ⟨text, htext, rfl⟩ (hall n.under (fun _ => id) others hothers)

end Node

theorem Sheet.outline_ok_iff {s : Sheet} {lines : List String} :
    s.outline = .ok lines ↔ ∃ rs, s.node.rows 0 = .ok rs ∧ rs.map (Row.line 0) = lines := by
  cases hr : s.node.rows 0 with
  | error f => simp [outline, Node.outline, hr, Except.map]
  | ok rs => simp [outline, Node.outline, hr, Except.map]

/-- A well-placed sheet has an outline, unless a number in it is too long. -/
theorem Sheet.outline_error {s : Sheet} (hs : s.isWellPlaced = true) {depth : Int} {f : Fault}
    (h : s.node.outline depth = .error f) : f = .tooLong ∧ ¬ s.node.IsWritable := by
  cases hr : s.node.rows 0 with
  | ok rs => simp [Node.outline, hr, Except.map] at h
  | error f' =>
    simp only [Node.outline, hr, Except.map] at h
    cases h
    exact Node.rows_error rfl (Sheet.clean_iff.mpr hs) hr

end StyleLang
