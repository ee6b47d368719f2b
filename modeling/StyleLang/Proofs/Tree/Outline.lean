import StyleLang.Node.Outline
import StyleLang.Proofs.Css.Plain

/-!
# Outlines of plain sheets

A plain sheet has an outline exactly if no number in it has too many digits, which is also when it is
written. Of other sheets nothing is said, nor of how the rows read.
-/

namespace StyleLang

namespace Node

variable {level : Nat}

theorem inline_literal_iff {m : Mark} {v : Literal} :
    (∃ text, (literal m v).inline = .ok text) ↔ ¬ v.IsTooLong := by
  rw [← Literal.css?_eq_none_iff]
  cases hv : v.css? with
  | none => simp [inline, Css.value, hv, Except.map]
  | some text => simp [inline, Css.value, hv, Except.map]

theorem rows_declaration_iff {m : Mark} {p : String} {e : Node} :
    (∃ rs, (declaration m p e).rows level = .ok rs) ↔ ∃ text, e.inline = .ok text := by
  simp only [rows, Css.bind_eq_ok, pure, Except.pure, Except.ok.injEq]
  constructor
  · rintro ⟨rs, text, htext, -⟩
    exact ⟨text, htext⟩
  · rintro ⟨text, htext⟩
    exact ⟨_, text, htext, rfl⟩

theorem rows_rule_iff {m : Mark} {ss : List Selector} {body : List Node} :
    (∃ rs, (rule m ss body).rows level = .ok rs) ↔ ∃ rs, rowsAll (level + 1) body = .ok rs := by
  simp only [rows, Css.bind_eq_ok, pure, Except.pure, Except.ok.injEq]
  constructor
  · rintro ⟨rs, below, hbelow, -⟩
    exact ⟨below, hbelow⟩
  · rintro ⟨below, hbelow⟩
    exact ⟨_, below, hbelow, rfl⟩

/-- Statements have rows exactly if each of them has. -/
theorem rowsAll_iff {ns : List Node} (h : ∀ n ∈ ns, n.isExpression = false) :
    (∃ rs, rowsAll level ns = .ok rs) ↔ ∀ n ∈ ns, ∃ rs, n.rows level = .ok rs := by
  induction ns with
  | nil => simp [rowsAll]
  | cons n ns ih =>
    obtain ⟨hn, hns⟩ := List.forall_mem_cons.mp h
    rw [List.forall_mem_cons, ← ih hns]
    simp only [rowsAll, hn, Bool.false_eq_true, if_false, Css.bind_eq_ok, pure, Except.pure,
      Except.ok.injEq]
    constructor
    · rintro ⟨rs, first, hfirst, others, hothers, -⟩
      exact ⟨⟨first, hfirst⟩, others, hothers⟩
    · rintro ⟨⟨first, hfirst⟩, others, hothers⟩
      exact ⟨_, first, hfirst, others, hothers, rfl⟩

end Node

theorem PlainMember.rows_iff {n : Node} (h : PlainMember n) {level : Nat} :
    (∃ rs, n.rows level = .ok rs) ↔
      ∀ m p m' v, n = .declaration m p (.literal m' v) → ¬ v.IsTooLong := by
  cases h with
  | declaration m p m' v =>
    rw [Node.rows_declaration_iff, Node.inline_literal_iff]
    constructor
    · rintro hv m₁ p₁ m₁' v₁ ⟨⟩
      exact hv
    · exact fun hv => hv m p m' v rfl

theorem PlainRule.rows_iff {n : Node} (h : PlainRule n) {level : Nat} :
    (∃ rs, n.rows level = .ok rs) ↔ ∀ m ss body m' p m'' v, n = .rule m ss body →
      Node.declaration m' p (.literal m'' v) ∈ body → ¬ v.IsTooLong := by
  cases h with
  | @rule m ss body hbody =>
    have hstatements : ∀ n ∈ body, n.isExpression = false := by
      intro n hn
      cases hbody n hn
      rfl
    rw [Node.rows_rule_iff, Node.rowsAll_iff hstatements]
    constructor
    · rintro hrows m₁ ss₁ body₁ m' p m'' v ⟨⟩ hmem
      exact (hbody _ hmem).rows_iff.mp (hrows _ hmem) m' p m'' v rfl
    · intro hshort n hn
      refine (hbody n hn).rows_iff.mpr fun m' p m'' v heq => ?_
      subst heq
      exact hshort m ss body m' p m'' v rfl hn

/-- A plain sheet has an outline exactly if none of its numbers is too long. -/
theorem Sheet.outline_iff {s : Sheet} (h : s.IsPlain) :
    (∃ lines, s.outline = .ok lines) ↔ ∀ v, s.Declares v → ¬ v.IsTooLong := by
  have hrows : (∃ lines, s.outline = .ok lines) ↔ ∃ rs, Node.rowsAll 1 s.members = .ok rs := by
    simp only [outline, Node.outline, node, Node.rows]
    cases Node.rowsAll (0 + 1) s.members <;> simp [bind, Except.bind, pure, Except.pure, Except.map]
  have hstatements : ∀ n ∈ s.members, n.isExpression = false := by
    intro n hn
    cases h n hn
    rfl
  rw [hrows, Node.rowsAll_iff hstatements]
  constructor
  · rintro hmembers v ⟨m, ss, body, m', p, m'', hrule, hmem⟩
    exact (h _ hrule).rows_iff.mp (hmembers _ hrule) m ss body m' p m'' v rfl hmem
  · intro hshort n hn
    refine (h n hn).rows_iff.mpr fun m ss body m' p m'' v heq hmem => ?_
    subst heq
    exact hshort v ⟨m, ss, body, m', p, m'', hn, hmem⟩

end StyleLang
