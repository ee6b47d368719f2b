import StyleLang.Proofs.Compile.Course
import StyleLang.Proofs.Evaluation.Faithful
import StyleLang.Proofs.Evaluation.Pipeline
import StyleLang.Proofs.Source.Overlong
import StyleLang.Proofs.Tree.Report
import StyleLang.Proofs.Typing.Adequacy

/-!
# The protocol of a compilation

How a compilation of a text can go, as far as a listener can tell, and the gate in the middle of it: a
sheet goes on to evaluation exactly if no slot in it is filled after the check. A listener that fails is
not followed here.
-/

namespace StyleLang

/-- Checking writes into empty slots only, and changes nothing else. -/
theorem Sheet.check_onlyFills (table : PropertyTable) {s : Sheet} (hw : s.isWellPlaced = true) :
    s.node.OnlyFills (s.check table).tree.node := by
  refine ⟨s.check_same table, fun p d h => ?_⟩
  obtain ⟨n, hn, hd⟩ := h
  by_cases hp : p = []
  · subst hp
    obtain rfl := Option.some.inj hn
    rw [Sheet.check_tree]
    exact ⟨_, rfl, hd⟩
  · obtain ⟨sel, types, h⟩ := Typing.arrives_of_at? table hw hn hp
    obtain ⟨d', hfill, -⟩ := h.mark_fill hw hn
    refine ⟨_, h.at?_checked hw hn, ?_⟩
    rw [hfill, hd]
    rfl

/-- A sheet whose check leaves no diagnostic is the same after the check, is evaluated, and is written
unless a number is too long. -/
structure Sheet.PassesGate (config : Config) (s : Sheet) : Prop where
  checked : (s.check config.table).result = .ok ()
  clean : (s.check config.table).tree.diagnostics = []
  kept : (s.check config.table).tree = s
  evaluated : s.evaluate.result = .ok ()
  written : (∃ css, s.evaluate.tree.css config.layout = .ok css) ∨
    (s.evaluate.tree.css config.layout = .error .tooLong ∧
      ∃ v, s.evaluate.tree.Declares v ∧ v.IsTooLong)

theorem Sheet.passesGate {config : Config} {s : Sheet} (hw : s.isWellPlaced = true)
    (hclean : (s.check config.table).tree.diagnostics = []) : s.PassesGate config := by
  have herrors := Node.diagnostics_eq_nil_iff.mp hclean
  obtain ⟨hevaluated, hsurvive⟩ := Evaluation.sheet_sound hw herrors
  have hplain : s.evaluate.tree.IsPlain := Evaluation.plainRule_of_rulesSurvive hsurvive
  exact ⟨(s.check_ok_iff config.table).mpr hw, hclean, Sheet.check_eq_self hw herrors, hevaluated,
    Sheet.css_plain hplain config.layout⟩

theorem Sheet.PassesGate.compilesTo {config : Config} {s : Sheet} (h : s.PassesGate config)
    {css : String} (hcss : s.evaluate.tree.css config.layout = .ok css) :
    s.CompilesTo config css s.evaluate.tree := by
  refine ⟨h.checked, h.clean, ?_, ?_, hcss⟩
  · rw [h.kept]
    exact h.evaluated
  · rw [h.kept]

/-- The events up to the writing of a sheet that passes the gate. -/
def Event.passed : List Event := Event.phase "check" ++ Event.phase "evaluate"

/-- The events of a sheet that does not. -/
def Event.rejection (found : List Diagnostic) : List Event :=
  Event.phase "check" ++ [.compilationFailed "check" (rejectionMessage found) found.length]

section

open Compiler

variable {σ : Type} {l : Listener σ} {config : Config} {s : Sheet}

theorem Sheet.PassesGate.tells_written (h : s.PassesGate config) (hl : l.NeverFails) {css : String}
    (hcss : s.evaluate.tree.css config.layout = .ok css) :
    Work.Tells l (compileSheet l config) s (Event.passed ++ Event.phase "generate") (.ok css)
      s.evaluate.tree := by
  have hevaluated := h.evaluated
  have hgenerate : Work.Tells l (generate l config) _ _ _ _ := tells_generate hl hcss
  rw [← h.kept] at hevaluated hgenerate
  have := tells_compileSheet hl h.checked h.clean hevaluated hgenerate
  rwa [h.kept, ← List.append_assoc] at this

theorem Sheet.PassesGate.tells_tooLong (h : s.PassesGate config) (hl : l.NeverFails)
    (hcss : s.evaluate.tree.css config.layout = .error .tooLong) :
    Work.Tells l (compileSheet l config) s (Event.passed ++ [.phaseStarted "generate"])
      (.error (.fault .tooLong)) s.evaluate.tree := by
  have hevaluated := h.evaluated
  have hgenerate : Work.Tells l (generate l config) _ _ _ _ := tells_generate_fault hl hcss
  rw [← h.kept] at hevaluated hgenerate
  have := tells_compileSheet hl h.checked h.clean hevaluated hgenerate
  rwa [h.kept, ← List.append_assoc] at this

/-- How a compilation of a sheet that lies ready ended, and what it left on the desk. -/
structure GateHolds (l : Listener σ) (config : Config) (s : Sheet) (heard : σ)
    (ended : Except Failure String × Desk σ) : Prop where
  rejected_iff : (∃ found, ended.1 = .error (.diagnostics found)) ↔
    ∃ p d, (s.check config.table).tree.node.FilledWith p d
  /-- A rejected sheet is left checked, with nothing overwritten, and was not evaluated. -/
  rejected : ∀ found, ended.1 = .error (.diagnostics found) →
    (s.check config.table).tree.node.Reports found ∧
      ended.2 = ⟨l.hearAll heard (Event.rejection found), (s.check config.table).tree⟩ ∧
      s.node.OnlyFills ended.2.sheet.node
  /-- A sheet that is not rejected is evaluated and written, unless a number in it is too long. -/
  passed : (∀ p d, ¬ (s.check config.table).tree.node.FilledWith p d) →
    s.evaluate.result = .ok () ∧ ended.2.sheet = s.evaluate.tree ∧
      ((∃ css, s.evaluate.tree.css config.layout = .ok css ∧ ended.1 = .ok css) ∨
        (ended.1 = .error (.fault .tooLong) ∧ ∃ v, s.evaluate.tree.Declares v ∧ v.IsTooLong))

/-- A well-placed sheet, with whatever its slots hold, is rejected exactly if a slot of it is filled after
the check. -/
theorem compileSheet_gate (hl : l.NeverFails) (hw : s.isWellPlaced = true) (config : Config)
    (heard : σ) :
    GateHolds l config s heard ((compileSheet l config).runOn ⟨heard, s⟩) := by
  have hok := (s.check_ok_iff config.table).mpr hw
  have hreports := Node.reports_diagnostics (s.check config.table).tree.node
  by_cases hclean : (s.check config.table).tree.diagnostics = []
  · have hgate := Sheet.passesGate hw hclean
    have hnone : ¬ ∃ p d, (s.check config.table).tree.node.FilledWith p d :=
      fun h => hreports.ne_nil_iff.mpr h hclean
    rcases hgate.written with ⟨css, hcss⟩ | ⟨hlong, hv⟩
    · rw [hgate.tells_written hl hcss heard]
      exact ⟨by simp [hnone], by simp, fun _ => ⟨hgate.evaluated, rfl, Or.inl ⟨css, hcss, rfl⟩⟩⟩
    · rw [hgate.tells_tooLong hl hlong heard]
      exact ⟨by simp [hnone], by simp, fun _ => ⟨hgate.evaluated, rfl, Or.inr ⟨rfl, hv⟩⟩⟩
  · have hsome := hreports.ne_nil_iff.mp hclean
    rw [tells_compileSheet_diagnosed hl hok rfl hclean heard]
    refine ⟨by simp [hsome], fun found hfound => ?_, fun hnone => ?_⟩
    · cases hfound
      exact ⟨hreports, rfl, Sheet.check_onlyFills config.table hw⟩
    · obtain ⟨p, d, hfilled⟩ := hsome
      exact absurd hfilled (hnone p d)

/-- A diagnostic that was there before the check, in the branch that is not selected. -/
theorem compileSheet_gate_elseBody :
    let d : Diagnostic := ⟨"operand-units", .operand, "left from before", none⟩
    let s : Sheet := ⟨none, [.rule none [.tag "p"] [.ifElse none (.literal none (.bool true)) [] none
      [.declaration (some d) "width" (.literal none (.pixel 1))]]]⟩
    let ended := (compileSheet .recorder .standard).runOn ⟨[], s⟩
    (∃ found, ended.1 = .error (.diagnostics found)) ∧
      (s.check Config.standard.table).tree.node.FilledWith [0, 0, 1, 0] d ∧
      GateHolds .recorder .standard s [] ended := by
  intro d s ended
  have hgate : GateHolds .recorder .standard s [] ended :=
    compileSheet_gate Listener.recorder_neverFails (by decide) .standard []
  have hfilled : (s.check Config.standard.table).tree.node.FilledWith [0, 0, 1, 0] d :=
    ⟨.declaration (some d) "width" (.literal none (.pixel 1)), rfl, rfl⟩
  exact ⟨hgate.rejected_iff.mpr ⟨_, _, hfilled⟩, hfilled, hgate⟩

end

/-- What a listener is told of the compilation of a text, and how the compilation ends. -/
inductive Protocol (config : Config) (name source : String) :
    List Event → Except Failure String → Prop
  /-- The text is no sheet. -/
  | rejected {e} (h : parse source = .error (.rejected e)) :
      Protocol config name source
        [.compilationStarted name, .phaseStarted "parse",
          .compilationFailed "parse" (Failure.source (.rejected e)).message 0]
        (.error (.source (.rejected e)))
  /-- It is, but for a number that is too long to be read, which is not announced. -/
  | overlong {t n} (h : Source.HasOverlong source t n) :
      Protocol config name source [.compilationStarted name, .phaseStarted "parse"]
        (.error (.source (.overlong t n)))
  /-- There are diagnostics. -/
  | diagnosed {s found} (hparse : parse source = .ok s)
      (hfound : (s.check config.table).tree.node.Reports found) (hne : found ≠ []) :
      Protocol config name source
        (.compilationStarted name :: (Event.phase "parse" ++ Event.phase "check" ++
          [.compilationFailed "check" (Failure.diagnostics found).message found.length]))
        (.error (.diagnostics found))
  /-- There are none, but a value is a number that is too long to be written. -/
  | tooLong {s v} (hparse : parse source = .ok s)
      (hclean : ∀ p d, ¬ (s.check config.table).tree.node.FilledWith p d)
      (hv : s.evaluate.tree.Declares v) (hlong : v.IsTooLong) :
      Protocol config name source
        (.compilationStarted name :: (Event.phase "parse" ++ Event.phase "check" ++
          Event.phase "evaluate" ++ [.phaseStarted "generate"]))
        (.error (.fault .tooLong))
  | completed {s css t} (hparse : parse source = .ok s) (h : s.CompilesTo config css t) :
      Protocol config name source
        (.compilationStarted name :: (Event.phase "parse" ++ Event.phase "check" ++
          Event.phase "evaluate" ++ Event.phase "generate" ++
          [.compilationCompleted name s.rules.length]))
        (.ok css)

theorem isWellPlaced_of_parse {source : String} {s : Sheet} (h : parse source = .ok s) :
    s.isWellPlaced = true :=
  Source.isWellPlaced_of_form (spells_of_parse h).1

theorem Sheet.diagnostics_eq_nil_of_not_filledWith {s : Sheet}
    (h : ∀ p d, ¬ s.node.FilledWith p d) : s.diagnostics = [] := by
  by_contra hne
  obtain ⟨p, d, hfilled⟩ := s.node.reports_diagnostics.ne_nil_iff.mp hne
  exact h p d hfilled

section

open Compiler

variable {σ : Type} {l : Listener σ} {config : Config} {name source : String} {events : List Event}
  {ended : Except Failure String}

/-- A course that the protocol allows is the one that is taken. -/
theorem Protocol.compile_eq (h : Protocol config name source events ended) (hl : l.NeverFails)
    (heard : σ) : compile l heard config name source = (ended, l.hearAll heard events) := by
  have hrun : ∀ {left : Sheet},
      Work.Tells l (Compiler.compile l config name source) ⟨none, []⟩ events ended left →
        compile l heard config name source = (ended, l.hearAll heard events) := by
    intro left htells
    simp only [compile, htells heard]
  cases h with
  | rejected h => exact hrun (tells_compile_unread hl name (tells_parse_rejected hl _ h))
  | overlong h => exact hrun (tells_compile_unread hl name (tells_parse_overlong hl _ h.parse_eq))
  | @diagnosed s found hparse hfound hne =>
    have hok := (s.check_ok_iff config.table).mpr (isWellPlaced_of_parse hparse)
    have hdiagnostics : (s.check config.table).tree.diagnostics = found :=
      (Node.reports_diagnostics _).unique hfound
    exact hrun (tells_compile_failed hl name hparse
      (tells_compileSheet_diagnosed hl hok hdiagnostics hne) _)
  | @tooLong s v hparse hclean hv hlong =>
    have hgate := Sheet.passesGate (isWellPlaced_of_parse hparse)
      (Sheet.diagnostics_eq_nil_of_not_filledWith hclean)
    rcases hgate.written with ⟨css, hcss⟩ | ⟨hfault, -⟩
    · exact absurd hlong (Sheet.not_tooLong_of_css hcss hv)
    · exact hrun (tells_compile_failed hl name hparse (hgate.tells_tooLong hl hfault) _)
  | @completed s css t hparse h =>
    have hgate := Sheet.passesGate (isWellPlaced_of_parse hparse) h.clean
    have hcss := h.written
    rw [h.left, hgate.kept] at hcss
    have htells := tells_compile hl name hparse (hgate.tells_written hl hcss) ⟨none, []⟩
    rw [Evaluation.evaluate_rules hgate.evaluated] at htells
    exact hrun htells

/-- The listener that remembers everything tells two courses apart. -/
theorem Protocol.unique (h : Protocol config name source events ended) {events' : List Event}
    {ended' : Except Failure String} (h' : Protocol config name source events' ended') :
    events' = events ∧ ended' = ended := by
  have hrun := h.compile_eq Listener.recorder_neverFails []
  rw [h'.compile_eq Listener.recorder_neverFails [], Listener.recorder_hearAll,
    Listener.recorder_hearAll, Prod.mk.injEq] at hrun
  exact ⟨hrun.2, hrun.1⟩

theorem protocol_exists (config : Config) (name source : String) :
    ∃ events ended, Protocol config name source events ended := by
  cases hparse : parse source with
  | error cause =>
    cases cause with
    | rejected e => exact ⟨_, _, .rejected hparse⟩
    | overlong t n => exact ⟨_, _, .overlong (Source.hasOverlong_of_parse hparse)⟩
  | ok s =>
    have hreports := Node.reports_diagnostics (s.check config.table).tree.node
    by_cases hclean : (s.check config.table).tree.diagnostics = []
    · have hgate := Sheet.passesGate (isWellPlaced_of_parse hparse) hclean
      rcases hgate.written with ⟨css, hcss⟩ | ⟨-, v, hv, hlong⟩
      · exact ⟨_, _, .completed hparse (hgate.compilesTo hcss)⟩
      · refine ⟨_, _, .tooLong hparse (fun p d hfilled => ?_) hv hlong⟩
        exact hreports.ne_nil_iff.mpr ⟨p, d, hfilled⟩ hclean
    · exact ⟨_, _, .diagnosed hparse hreports hclean⟩

/-- A listener that never fails is told one course, and it is one that the protocol allows. -/
theorem compile_protocol (hl : l.NeverFails) (heard : σ) (config : Config) (name source : String) :
    ∃ events ended, Protocol config name source events ended ∧
      (∀ events' ended', Protocol config name source events' ended' →
        events' = events ∧ ended' = ended) ∧
      compile l heard config name source = (ended, l.hearAll heard events) := by
  obtain ⟨events, ended, h⟩ := protocol_exists config name source
  exact ⟨events, ended, h, fun _ _ h' => h.unique h', h.compile_eq hl heard⟩

/-- A sheet with one rule, beside an assignment that is no rule. -/
theorem compile_protocol_completed :
    let source := "X:=2px;p{width:X;}"
    let css := "p {
  width: 2px;
}
"
    Protocol .standard "site" source
      ([.compilationStarted "site"] ++ Event.phase "parse" ++ Event.phase "check" ++
        Event.phase "evaluate" ++ Event.phase "generate" ++ [.compilationCompleted "site" 1])
      (.ok css) := by
  intro source css
  obtain ⟨events, ended, h, -, hrun⟩ :=
    compile_protocol Listener.recorder_neverFails [] .standard "site" source
  have hcompile : compile .recorder [] .standard "site" source = (.ok css,
      [.compilationStarted "site"] ++ Event.phase "parse" ++ Event.phase "check" ++
        Event.phase "evaluate" ++ Event.phase "generate" ++ [.compilationCompleted "site" 1]) := by
    decide +kernel
  rw [hrun, Listener.recorder_hearAll, Prod.mk.injEq] at hcompile
  obtain ⟨rfl, rfl⟩ := hcompile
  exact h

end

end StyleLang
