import Mathlib.Logic.Equiv.Basic
import StyleLang.Proofs.Compile.Protocol
import StyleLang.Proofs.Evaluation.Renaming
import StyleLang.Proofs.Typing.Renaming

/-!
# The names of variables

A sheet with new names is checked, evaluated and compiled like the sheet, as long as different names stay
different. What a new name looks like does not matter: it may be that of a property or a keyword, or differ
from another in case only. A listener that fails is not followed here.
-/

namespace StyleLang

variable {σ : Type} {r : String → String} {s : Sheet}

/-- A sheet whose check leaves no diagnostic is plain after evaluation, so the names are gone. -/
theorem Sheet.evaluate_tree_renamed (hr : Function.Injective r) {table : PropertyTable}
    (hw : s.isWellPlaced = true) (hclean : (s.check table).tree.diagnostics = []) :
    (s.renamed r).evaluate.tree = s.evaluate.tree := by
  have herrors := Node.diagnostics_eq_nil_iff.mp hclean
  have hplain : s.evaluate.tree.IsPlain :=
    Evaluation.plainRule_of_rulesSurvive (Evaluation.sheet_sound hw herrors).2
  have htree : (s.renamed r).evaluate.tree = s.evaluate.tree.renamed r :=
    congrArg Passage.tree (Sheet.evaluate_renamed hr s)
  rw [htree, hplain.renamed_eq]

theorem Sheet.PassesGate.renamed (hr : Function.Injective r) {config : Config} (hw : s.isWellPlaced = true)
    (h : s.PassesGate config) : (s.renamed r).PassesGate config := by
  have hclean : ((s.renamed r).check config.table).tree.diagnostics = [] := by
    rw [Sheet.check_renamed hr]
    exact Node.diagnostics_eq_nil_iff.mpr
      (Node.hasErrors_renamed r (Node.diagnostics_eq_nil_iff.mp h.clean))
  exact Sheet.passesGate (Sheet.isWellPlaced_renamed hr hw) hclean

/-- With other names, which are different where the names are, a sheet is checked alike, evaluated alike and
compiled to the same text. -/
theorem names_up_to_renaming (hr : Function.Injective r) (hw : s.isWellPlaced = true)
    (hs : s.node.hasErrors = false) :
    (∀ table, (s.check table).result = .ok () ∧ ((s.renamed r).check table).result = .ok () ∧
      ∀ p, Option.Rel (fun n n' => Typing.SlotRenamed r n.mark n'.mark)
        ((s.check table).tree.node.at? p) (((s.renamed r).check table).tree.node.at? p)) ∧
    (s.evaluate.result = .ok () ↔ (s.renamed r).evaluate.result = .ok ()) ∧
    ∀ (l : Listener σ) (config : Config) (heard : σ), l.NeverFails →
      (s.check config.table).tree.diagnostics = [] →
      let ended := (Compiler.compileSheet l config).runOn ⟨heard, s⟩
      ((∃ css, ended.1 = .ok css) ∨ (ended.1 = .error (.fault .tooLong) ∧
        ∃ v, s.evaluate.tree.Declares v ∧ v.IsTooLong)) ∧
      (Compiler.compileSheet l config).runOn ⟨heard, s.renamed r⟩ = ended := by
  refine ⟨fun table => ?_, ?_, ?_⟩
  · have hok := (s.check_ok_iff table).mpr hw
    exact ⟨hok, Sheet.check_ok_renamed hr hok, Sheet.check_slots_renamed hr table hw hs⟩
  · rw [Sheet.evaluate_renamed hr]
    show _ ↔ (s.evaluate.result.map id).mapError (Fault.renamed r) = .ok ()
    cases s.evaluate.result <;> simp [Except.map]
  · intro l config heard hl hclean ended
    have hgate := Sheet.passesGate hw hclean
    have hgate' := hgate.renamed hr hw
    have htree := Sheet.evaluate_tree_renamed hr hw hclean
    rcases hgate.written with ⟨css, hcss⟩ | ⟨hlong, hv⟩
    · have hended : ended = _ := hgate.tells_written hl hcss heard
      rw [hended, hgate'.tells_written hl (htree ▸ hcss) heard, htree]
      exact ⟨Or.inl ⟨css, rfl⟩, rfl⟩
    · have hended : ended = _ := hgate.tells_tooLong hl hlong heard
      rw [hended, hgate'.tells_tooLong hl (htree ▸ hlong) heard, htree]
      exact ⟨Or.inr ⟨rfl, hv⟩, rfl⟩

/-- The name of a property for that of a variable, and the other way round. -/
theorem names_up_to_renaming_property :
    let sheet : String → Sheet := fun x => ⟨none, [.assignment none x (.literal none (.pixel 2)),
      .rule none [.tag "p"] [.declaration none "width" (.reference none x)]]⟩
    let compiled : Sheet → Except Failure String × Desk (List Event) := fun s =>
      (Compiler.compileSheet .recorder .standard).runOn ⟨[], s⟩
    (sheet "A").renamed (Equiv.swap "A" "width") = sheet "width" ∧
      compiled (sheet "width") = compiled (sheet "A") := by
  intro sheet compiled
  have hrenamed : (sheet "A").renamed (Equiv.swap "A" "width") = sheet "width" := by
    simp [sheet, Sheet.renamed, Node.renamedAll, Node.renamed]
  have hs : (sheet "A").node.hasErrors = false := by
    simp [sheet, Sheet.node, Node.hasErrors, Node.walk, Node.visit, Node.children, Node.mark]
  have hclean : ((sheet "A").check Config.standard.table).tree.diagnostics = [] :=
    Node.diagnostics_eq_nil_iff.mpr hs
  obtain ⟨-, -, hcompiled⟩ := names_up_to_renaming (Equiv.swap "A" "width").injective
    (s := sheet "A") rfl hs
  refine ⟨hrenamed, ?_⟩
  rw [← hrenamed]
  exact (hcompiled .recorder .standard [] Listener.recorder_neverFails hclean).2

end StyleLang
