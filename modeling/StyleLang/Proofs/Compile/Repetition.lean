import Mathlib.Logic.Function.Iterate
import StyleLang.Proofs.Compile.Steps
import StyleLang.Proofs.Css.ReadBack
import StyleLang.Proofs.Evaluation.Settled

/-!
# Compiling again

A sheet that was compiled is left settled, so it compiles again to the same text as often as one likes.
The text itself is read as that sheet, if no number in it is negative, and so compiles to itself. Whether
the listener fails at an event of a later compilation is left open; all else about them is said.
-/

namespace StyleLang

variable {σ τ : Type} {config : Config}

theorem Sheet.CompilesTo.kept {s t : Sheet} {css : String} (h : s.CompilesTo config css t) :
    (s.check config.table).tree = s :=
  Sheet.check_eq_self ((s.check_ok_iff config.table).mp h.checked)
    (Node.diagnostics_eq_nil_iff.mp h.clean)

theorem Sheet.CompilesTo.settled {s t : Sheet} {css : String} (h : s.CompilesTo config css t) :
    t.IsSettled config.table := by
  rw [h.left, h.kept]
  exact Evaluation.evaluate_settled ((s.check_ok_iff config.table).mp h.checked)
    (Node.diagnostics_eq_nil_iff.mp h.clean)

/-- On the sheet that a compilation leaves, another one comes to the same text. -/
theorem Sheet.CompilesTo.rests {s t : Sheet} {css : String} (h : s.CompilesTo config css t)
    (l : Listener σ) : Work.Rests l t (Compiler.compileSheet l config) css := by
  have hsettled := h.settled
  obtain ⟨hchecked, hsame⟩ := hsettled.check
  obtain ⟨hevaluated, hleft⟩ := hsettled.plain.evaluate
  exact Compiler.rests_compileSheet hchecked hsame
    (Node.diagnostics_eq_nil_iff.mpr hsettled.hasErrors) hevaluated hleft h.written

/-- The desk after the sheet on it was compiled a number of times. -/
def Compiler.recompiled (l : Listener σ) (config : Config) (times : Nat) (desk : Desk σ) : Desk σ :=
  (fun d => ((compileSheet l config).runOn d).2)^[times] desk

theorem Compiler.recompiled_sheet {l : Listener σ} {desk : Desk σ} {css : String}
    (h : Work.Rests l desk.sheet (compileSheet l config) css) (times : Nat) :
    (recompiled l config times desk).sheet = desk.sheet := by
  induction times with
  | zero => rfl
  | succ times ih =>
    rw [recompiled, Function.iterate_succ_apply']
    have hrests := h.sheet_eq (recompiled l config times desk).heard
    rw [← ih] at hrests ⊢
    exact hrests

/-- The sheet that a compilation leaves is checked without diagnostics, and compiling it again, any number
of times, comes to the same text and leaves the sheet as it is. -/
theorem compileSheet_repeats (l : Listener σ) (config : Config) (desk left : Desk σ) (css : String)
    (h : (Compiler.compileSheet l config).runOn desk = (.ok css, left)) :
    (left.sheet.check config.table).result = .ok () ∧
      (left.sheet.check config.table).tree.diagnostics = [] ∧
      ∀ times, (Compiler.recompiled l config times left).sheet = left.sheet ∧
        Work.EndsWith l (Compiler.compileSheet l config) (Compiler.recompiled l config times left)
          css := by
  have hcompiles := Compiler.compileSheet_ok h
  have hrests := hcompiles.rests l
  obtain ⟨hchecked, hsame⟩ := hcompiles.settled.check
  refine ⟨hchecked, ?_, fun times => ?_⟩
  · rw [hsame]
    exact Node.diagnostics_eq_nil_iff.mpr hcompiles.settled.hasErrors
  · have hsheet := Compiler.recompiled_sheet hrests times
    refine ⟨hsheet, ?_⟩
    have hends := hrests.endsWith (Compiler.recompiled l config times left).heard
    rw [← hsheet] at hends
    exact hends

theorem Listener.recorder_not_failsWith (message : String) :
    ¬ Listener.recorder.FailsWith message := by
  rintro ⟨e, heard, h⟩
  cases h

/-- A sheet with a branch and an assignment in it, compiled five times. -/
theorem compileSheet_repeats_branch :
    let config : Config := ⟨.standard, [("height", some .pixel)]⟩
    let desk : Desk (List Event) := ⟨[], none, [.assignment none "A" (.literal none (.pixel 2)),
      .rule none [.tag "p", .ofId "top"] [.ifElse none (.literal none (.bool false))
        [.declaration none "width" (.reference none "A")] none
        [.assignment none "A" (.operation none .add (.reference none "A") (.literal none (.pixel 3))),
          .declaration none "height" (.reference none "A")]]]⟩
    let ended := (Compiler.compileSheet .recorder config).runOn desk
    let later := Compiler.recompiled .recorder config 3 ended.2
    let css := "p, #top \x7b\n  height: 5px;\n\x7d\n"
    ended.1 = .ok css ∧ (ended.2.sheet.check config.table).tree.diagnostics = [] ∧
      later.sheet = ended.2.sheet ∧
      ((Compiler.compileSheet .recorder config).runOn later).1 = .ok css := by
  intro config desk ended later css
  have hended : ended.1 = .ok css := by decide +kernel
  have hrun : ended = (.ok css, ended.2) := by rw [← hended]
  have hrepeats := compileSheet_repeats .recorder config desk ended.2 css hrun
  obtain ⟨hsheet, hends⟩ := hrepeats.2.2 3
  rcases hends with hends | ⟨message, hfails, -⟩
  · exact ⟨hended, hrepeats.2.1, hsheet, hends⟩
  · exact absurd hfails (Listener.recorder_not_failsWith message)

namespace Evaluation

variable {R : Node → Node → Prop} {s : Sheet}

/-- A plain member that is left of a sheet in parser form can be read, if it can be written. -/
theorem Becomes.css (hform : Source.SheetForm R s) {q : Position} {n : Node}
    (h : Becomes s.node q n) (hplain : PlainMember n)
    (hshort : ∀ m p m' v, n = .declaration m p (.literal m' v) → ¬ v.IsTooLong) : CssMember n := by
  cases h with
  | @declaration m name e c hn hv =>
    obtain ⟨hp, hif⟩ := (hform.at? hn).property
    refine .declaration m c.mark hp hif ?_
    have hlong := hshort m name c.mark c.value rfl
    cases hvalue : c.value with
    | color text =>
      obtain ⟨q', m', hcolor⟩ := hv.color_origin hvalue
      exact (hform.at? hcolor).color
    | pixel | percentage | scalar | bool =>
      rw [hvalue] at hlong
      exact hlong
  | undecided hn hc hv hb =>
    cases hplain with
    | declaration => cases hc

/-- What evaluation leaves of a sheet in parser form can be read, if it is plain and can be written. -/
theorem evaluate_isCss (hform : Source.SheetForm R s) (hok : s.evaluate.result = .ok ())
    (hplain : s.evaluate.tree.IsPlain)
    (hshort : ∀ v, s.evaluate.tree.Declares v → ¬ v.IsTooLong) : s.evaluate.tree.IsCss := by
  obtain ⟨out, hout, htree⟩ := members_of_evaluate hok
  obtain ⟨origins, hall, -⟩ := evaluateMembers_standFor hout
  rw [htree] at hplain hshort ⊢
  intro n hn
  obtain ⟨q, m, ss, body, decls, hrule, rfl, places, hdecls, -⟩ := exists_of_forall₂ hall hn
  refine .rule m (hform.at? hrule).selectors fun d hd => ?_
  obtain ⟨p, hbecomes⟩ := exists_of_forall₂ hdecls hd
  have hmember : PlainMember d := by
    cases hplain _ hn with
    | rule _ _ hbody => exact hbody d hd
  refine hbecomes.css hform hmember ?_
  rintro m' p' m'' v rfl
  exact hshort v ⟨m, ss, decls, m', p', m'', hn, hd⟩

end Evaluation

/-- What a text compiles to can be read as the sheet that is left. -/
theorem Sheet.CompilesTo.isCss {R : Node → Node → Prop} {s t : Sheet} {css : String}
    (hform : Source.SheetForm R s) (h : s.CompilesTo config css t) : t.IsCss := by
  obtain rfl : t = s.evaluate.tree := by rw [h.left, h.kept]
  have hevaluated := h.evaluated
  rw [h.kept] at hevaluated
  exact Evaluation.evaluate_isCss hform hevaluated h.settled.plain
    fun v => Sheet.not_tooLong_of_css h.written

theorem Sheet.IsSettled.unmarkedAll {table : PropertyTable} {t : Sheet} (h : t.IsSettled table) :
    (⟨none, Node.unmarkedAll t.members⟩ : Sheet) = t := by
  obtain ⟨mark, members⟩ := t
  obtain rfl : mark = none := h.mark
  have hmembers : Node.unmarkedAll members = members := by
    refine Node.unmarkedAll_eq_self fun n hn => Node.unmarked_eq_self ?_
    exact (Node.hasErrors_eq_false_iff.mp h.hasErrors).2 n hn
  rw [hmembers]

/-- With blanks for indentation and between the blocks, a text that was compiled compiles to itself, if
no value that it declares is negative, and does not compile at all, if one is. -/
theorem compile_idempotent (l : Listener σ) (l' : Listener τ) (config : Config)
    (hindent : ∀ c ∈ config.layout.indent.text.toList, Source.isBlank c = true)
    (hsep : ∀ c ∈ config.layout.separator.toList, Source.isBlank c = true)
    (name source css : String) (desk left : Desk σ)
    (h : (Compiler.compile l config name source).runOn desk = (.ok css, left)) (name' : String)
    (desk' : Desk τ) :
    left.sheet.css config.layout = .ok css ∧
      (¬ left.sheet.HoldsNegative →
        Work.EndsWith l' (Compiler.compile l' config name' css) desk' css) ∧
      (left.sheet.HoldsNegative →
        ∀ text, ((Compiler.compile l' config name' css).runOn desk').1 ≠ .ok text) := by
  obtain ⟨s, hparse, hcompiles⟩ := Compiler.compile_ok h
  have hcss := hcompiles.isCss (spells_of_parse hparse).1
  have hplain : ∀ n ∈ left.sheet.members, PlainRule n ∧ n.selectors ≠ [] := fun n hn =>
    (hcss n hn).plain
  have hspells : Source.Spells (Source.pieces left.sheet.node) css.toList :=
    spells_css (.of_blanks hindent) (.of_blanks hsep) (fun n hn => (hplain n hn).1)
      (fun n hn => (hplain n hn).2) hcompiles.written
  refine ⟨hcompiles.written, fun hneg => ?_, fun hneg text hend => ?_⟩
  · have hread := parse_nonnegative hcss hneg hspells
    rw [hcompiles.settled.unmarkedAll] at hread
    exact Compiler.compile_endsWith hread (hcompiles.rests l') name' desk'
  · obtain ⟨e, he⟩ := parse_negative hcss hneg hspells
    have hrun : (Compiler.compile l' config name' css).runOn desk' =
        (.ok text, ((Compiler.compile l' config name' css).runOn desk').2) := Prod.ext hend rfl
    obtain ⟨t, ht, -⟩ := Compiler.compile_ok hrun
    rw [he] at ht
    cases ht

/-- The value of a name compiles to itself; a difference below zero is written with a sign, which is not
read. -/
theorem compile_idempotent_sign :
    let ended := fun source =>
      (Compiler.compile .recorder .standard "source" source).runOn ⟨[], none, []⟩
    let css := "p \x7b\n  width: 2px;\n\x7d\n"
    let negative := "p \x7b\n  width: -1px;\n\x7d\n"
    ((ended "X:=2px;p\x7bif[TRUE]\x7bwidth:X;\x7d\x7d").1 = .ok css ∧ (ended css).1 = .ok css) ∧
      (ended "p\x7bwidth:2px-3px;\x7d").1 = .ok negative ∧ (ended negative).1 ≠ .ok negative := by
  intro ended css negative
  have hindent : ∀ c ∈ Config.standard.layout.indent.text.toList, Source.isBlank c = true :=
    List.all_eq_true.mp (by decide)
  have hsep : ∀ c ∈ Config.standard.layout.separator.toList, Source.isBlank c = true :=
    List.all_eq_true.mp (by decide)
  let left : Int → Sheet := fun n =>
    ⟨none, [.rule none [.tag "p"] [.declaration none "width" (.literal none (.pixel n))]]⟩
  have hholds : ∀ n, (left n).HoldsNegative ↔ n < 0 := by
    intro n
    simp [left, Sheet.HoldsNegative, NegativeRule, NegativeMember, Literal.isNegative,
      Literal.number?]
  have hsource : (ended "X:=2px;p\x7bif[TRUE]\x7bwidth:X;\x7d\x7d").1 = .ok css := by decide +kernel
  have hbelow : (ended "p\x7bwidth:2px-3px;\x7d").1 = .ok negative := by decide +kernel
  have hrun : ∀ source text, (ended source).1 = .ok text →
      ended source = (.ok text, (ended source).2) := by
    intro source text h
    rw [← h]
  refine ⟨⟨hsource, ?_⟩, hbelow, ?_⟩
  · have hleft : (ended "X:=2px;p\x7bif[TRUE]\x7bwidth:X;\x7d\x7d").2.sheet = left 2 := by
      decide +kernel
    have hends := (compile_idempotent .recorder .recorder .standard hindent hsep _ _ _ _ _
      (hrun _ _ hsource) "source" ⟨[], none, []⟩).2.1
    rw [hleft, hholds] at hends
    rcases hends (by decide) with hends | ⟨message, hfails, -⟩
    · exact hends
    · exact absurd hfails (Listener.recorder_not_failsWith message)
  · have hleft : (ended "p\x7bwidth:2px-3px;\x7d").2.sheet = left (-1) := by decide +kernel
    have hrejected := (compile_idempotent .recorder .recorder .standard hindent hsep _ _ _ _ _
      (hrun _ _ hbelow) "source" ⟨[], none, []⟩).2.2
    rw [hleft, hholds] at hrejected
    exact hrejected (by decide) negative

end StyleLang
