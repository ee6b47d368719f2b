import StyleLang.Proofs.Css.Plain
import StyleLang.Proofs.Evaluation.Soundness
import StyleLang.Proofs.Source.Completeness
import StyleLang.Proofs.Source.Parts

/-!
# From a text to CSS

Every text that is parsed can be checked, and if a check leaves no diagnostic then evaluation ends
normally, with a plain sheet whose literals have the types that were inferred, and nothing but the length
of a number keeps it from being written. A sheet with diagnostics is not followed further.
-/

namespace StyleLang

theorem Mark.eq_none_of_fill {m d : Mark} (h : m.fill d = none) : m = none := by
  cases m with
  | none => rfl
  | some d' => cases h

/-- A check that ends normally and leaves no diagnostic leaves the sheet as it is. -/
theorem Sheet.check_eq_self {table : PropertyTable} {s : Sheet} (hw : s.isWellPlaced = true)
    (hclean : (s.check table).tree.hasErrors = false) : (s.check table).tree = s := by
  have hs : s.node.hasErrors = false := by
    refine Node.hasErrors_of_at? fun p n hn => ?_
    by_cases hp : p = []
    · subst hp
      obtain rfl := Option.some.inj hn
      have hroot := (Node.hasErrors_eq_false_iff.mp hclean).1
      rwa [Sheet.check_tree] at hroot
    · obtain ⟨sel, types, h⟩ := Typing.arrives_of_at? table hw hn hp
      obtain ⟨d, hfill, -⟩ := h.mark_fill hw hn
      have hchecked := Node.mark_at? hclean (h.at?_checked hw hn)
      rw [hfill] at hchecked
      exact Mark.eq_none_of_fill hchecked
  have hnode := Node.eq_of_same (s.check_same table) hclean hs
  generalize (s.check table).tree = t at hnode
  obtain ⟨m, members⟩ := t
  obtain ⟨m', members'⟩ := s
  simpa [node] using hnode

namespace Evaluation

theorem plainMember_of_origin {table : PropertyTable} {s : Sheet} {q : Position} {n : Node}
    (h : Origin table s q n) : PlainMember n := by
  obtain ⟨m, name, e, values, c, sel, types, -, -, -, rfl, -⟩ := h
  exact .declaration m name c.mark c.value

theorem plainRule_of_rulesSurvive {table : PropertyTable} {s : Sheet} {k : Nat} {out : List Node}
    (h : RulesSurvive table s k out) : ∀ n ∈ out, PlainRule n := by
  obtain ⟨places, -, -, hall⟩ := h
  intro n hn
  obtain ⟨i, m, ss, body, decls, -, rfl, origins, horigins, -⟩ := exists_of_forall₂ hall hn
  refine .rule m ss fun d hd => ?_
  obtain ⟨q, horigin⟩ := exists_of_forall₂ horigins hd
  exact plainMember_of_origin horigin

end Evaluation

/-- What becomes of a sheet whose check leaves no diagnostic. -/
structure Sheet.Sound (table : PropertyTable) (s : Sheet) : Prop where
  kept : (s.check table).tree = s
  evaluated : (s.check table).tree.evaluate.result = .ok ()
  plain : (s.check table).tree.evaluate.tree.IsPlain
  /-- The rules that are left, and in them the declarations, each with its origin and its type. -/
  survivors : Evaluation.RulesSurvive table s s.members.length
    (s.check table).tree.evaluate.tree.members
  written : ∀ layout, (∃ text, (s.check table).tree.evaluate.tree.css layout = .ok text) ∨
    ((s.check table).tree.evaluate.tree.css layout = .error .tooLong ∧
      ∃ v, (s.check table).tree.evaluate.tree.Declares v ∧ v.IsTooLong)

/-- Checking ends normally on every sheet that is parsed, and a sheet on which it ends normally without
diagnostics evaluates to a plain one, of which only the length of a number can go wrong. -/
theorem pipeline_sound :
    (∀ (source : String) (s : Sheet), parse source = .ok s →
        ∀ table, (s.check table).result = .ok ()) ∧
      ∀ (table : PropertyTable) (s : Sheet), (s.check table).result = .ok () →
        (s.check table).tree.hasErrors = false → s.Sound table := by
  constructor
  · intro source s hparse table
    exact (s.check_ok_iff table).mpr (Source.isWellPlaced_of_form (spells_of_parse hparse).1)
  · intro table s hok hclean
    have hw := (s.check_ok_iff table).mp hok
    have hself := Sheet.check_eq_self hw hclean
    obtain ⟨hresult, hsurvive⟩ := Evaluation.sheet_sound hw hclean
    have hplain : s.evaluate.tree.IsPlain := Evaluation.plainRule_of_rulesSurvive hsurvive
    refine ⟨hself, ?_, ?_, ?_, ?_⟩
    · rwa [hself]
    · rwa [hself]
    · rwa [hself]
    · rw [hself]
      exact Sheet.css_plain hplain

/-- A value of a name, in a branch. -/
theorem pipeline_sound_branch :
    let s : Sheet := ⟨none, [.assignment none "X" (.literal none (.pixel 2)),
      .rule none [.tag "p"] [.ifClause none (.literal none (.bool true))
        [.declaration none "width" (.reference none "X")]]]⟩
    parse "X:=2px;p\x7bif[TRUE]\x7bwidth:X;\x7d\x7d" = .ok s ∧ s.Sound .builtin := by
  intro s
  have hspells : Source.Spells (Source.pieces s.node)
      "X:=2px;p\x7bif[TRUE]\x7bwidth:X;\x7d\x7d".toList := by
    have htwo : Source.Digits ['2'] := Source.digits_of_all (by decide) (by decide) (by decide)
    refine .cons_exact (.cons_exact (Source.Spells.cons_number htwo (by decide) ['p', 'x'] ?_))
    -- The end of the assignment, the rule up to the branch, and then the declaration.
    refine .cons_exact (.cons_exact (.cons_exact (.cons_exact (.cons_exact ?_))))
    refine .cons_exact (.cons_exact (.cons_exact ?_))
    refine .cons_exact (.cons_exact (.cons_exact (.cons_exact ?_)))
    exact .cons_exact (.cons_exact (.done .nil))
  have hform : Source.SheetForm Source.Apart s := by
    have hdecl : Source.MemberForm Source.Apart (.declaration none "width" (.reference none "X")) :=
      .declaration (by decide) (by decide)
        (.product (.atom (.reference (by decide) (by decide) (by decide))))
    have hif : Source.MemberForm Source.Apart (.ifClause none (.literal none (.bool true))
        [.declaration none "width" (.reference none "X")]) :=
      .ifClause (.product (.atom (.bool true))) (by simpa using hdecl) (.singleton _)
    have hselector : Source.SelectorForm (.tag "p") := .tag (by decide)
    refine ⟨rfl, ?_, by simp [s, Source.Apart, Source.apart, Selector.tag]⟩
    intro n hn
    simp only [s, List.mem_cons, List.not_mem_nil, or_false] at hn
    rcases hn with rfl | rfl
    · exact .assignment (by decide) (.product (.atom (.pixel (by decide))))
    · exact .rule ⟨by decide, by simpa using hselector⟩ ⟨by simpa using hif, .singleton _⟩
  have hparse := parse_of_spells hform hspells
  refine ⟨hparse, pipeline_sound.2 .builtin s (pipeline_sound.1 _ s hparse .builtin) ?_⟩
  have htree : (s.check .builtin).tree = s := rfl
  rw [htree]
  simp [s, Sheet.hasErrors, Sheet.node, Node.hasErrors, Node.walk, Node.visit, Node.children,
    Node.mark]

end StyleLang
