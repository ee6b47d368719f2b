import StyleLang.CommandLine.Execute
import StyleLang.Proofs.Compile.Protocol
import StyleLang.Proofs.Tree.Outline

/-!
# The verdict on a file

The three commands take a file through the phases by different ways, and agree on whether it is valid.
Two of them also write numbers, which may have too many digits, and one indents lines, for which memory
may not suffice, and writes a file: what can go wrong there is no verdict, and is kept apart.
-/

namespace StyleLang.CommandLine

open Compiler

/-- No slot of the sheet is filled after its check. -/
def Unmarked (s : Sheet) : Prop :=
  ∀ p d, ¬ (s.check Config.standard.table).tree.node.FilledWith p d

def IsValid (source : String) : Prop := ∃ s, parse source = .ok s ∧ Unmarked s

/-- If the text is valid, and so is evaluated, no value that is left has a number that is too long. -/
def ValuesFit (source : String) : Prop :=
  ∀ s, parse source = .ok s → Unmarked s → ∀ v, s.evaluate.tree.Declares v → ¬ v.IsTooLong

theorem unmarked_iff {s : Sheet} :
    Unmarked s ↔ (s.check Config.standard.table).tree.diagnostics = [] := by
  have hreports := Node.reports_diagnostics (s.check Config.standard.table).tree.node
  constructor
  · exact Sheet.diagnostics_eq_nil_of_not_filledWith
  · intro hclean p d hfilled
    exact hreports.ne_nil_iff.mpr ⟨p, d, hfilled⟩ hclean

section

variable {source : String} {s : Sheet}

theorem isValid_iff (h : parse source = .ok s) : IsValid source ↔ Unmarked s := by
  constructor
  · rintro ⟨s', h', hs⟩
    obtain rfl := Except.ok.inj (h.symm.trans h')
    exact hs
  · exact fun hs => ⟨s, h, hs⟩

theorem not_isValid_of_error {f : Source.ParseFault} (h : parse source = .error f) :
    ¬ IsValid source := by
  rintro ⟨s, hs, -⟩
  cases h.symm.trans hs

theorem valuesFit_iff (h : parse source = .ok s) (hs : Unmarked s) :
    ValuesFit source ↔ ∀ v, s.evaluate.tree.Declares v → ¬ v.IsTooLong := by
  constructor
  · exact fun hfit => hfit s h hs
  · intro hshort s' h' _
    obtain rfl := Except.ok.inj (h.symm.trans h')
    exact hshort

theorem Unmarked.passesGate (hs : Unmarked s) (h : parse source = .ok s) : s.PassesGate .standard :=
  Sheet.passesGate (isWellPlaced_of_parse h) (unmarked_iff.mp hs)

theorem Unmarked.isPlain (hs : Unmarked s) (h : parse source = .ok s) : s.evaluate.tree.IsPlain := by
  have herrors := Node.diagnostics_eq_nil_iff.mp (unmarked_iff.mp hs)
  exact Evaluation.plainRule_of_rulesSurvive
    (Evaluation.sheet_sound (isWellPlaced_of_parse h) herrors).2

end

theorem runAlone_eq {α : Type} {w : Work (List Event) α} {told : List Event}
    {ended : Except Failure α} {left : Sheet}
    (h : Work.Tells .recorder w ⟨none, []⟩ told ended left) : runAlone w = (ended, left) := by
  simp only [runAlone, h []]

theorem tells_load (t : Sheet) {source : String} {s : Sheet} (h : parse source = .ok s) :
    Work.Tells .recorder (load source) t (Event.phase "parse") (.ok ()) s :=
  (tells_parse Listener.recorder_neverFails t h).bind (tells_put .recorder t s)

/-- A text that cannot be read ends every command that is to read it. -/
theorem runAlone_load_error {α : Type} {source : String} {f : Source.ParseFault}
    (h : parse source = .error f) (next : Work (List Event) α) :
    (runAlone (load source >>= fun _ => next)).1 = .error (.source f) := by
  have hparse : ∃ told, Work.Tells .recorder (Compiler.parse .recorder source) ⟨none, []⟩ told
      (.error (.source f)) ⟨none, []⟩ := by
    cases f with
    | rejected e => exact ⟨_, tells_parse_rejected Listener.recorder_neverFails _ h⟩
    | overlong t n => exact ⟨_, tells_parse_overlong Listener.recorder_neverFails _ h⟩
  obtain ⟨told, hparse⟩ := hparse
  have hload : Work.Tells .recorder (load source) ⟨none, []⟩ told (.error (.source f)) ⟨none, []⟩ :=
    hparse.bind_error _
  rw [runAlone_eq (hload.bind_error _)]

theorem runAlone_check {source : String} {s : Sheet} (h : parse source = .ok s) :
    (runAlone do
      load source
      Compiler.check .recorder .standard).1 =
        .ok (s.check Config.standard.table).tree.diagnostics := by
  have hok := (s.check_ok_iff Config.standard.table).mpr (isWellPlaced_of_parse h)
  have hcheck : Work.Tells .recorder (Compiler.check .recorder .standard) s _ _ _ :=
    tells_check Listener.recorder_neverFails hok
  rw [runAlone_eq ((tells_load _ h).bind hcheck)]

theorem runCheck_code (name source : String) : (runCheck name source).code = 0 ↔ IsValid source := by
  cases h : parse source with
  | error f =>
    have hcode : (runCheck name source).code = 1 := by
      simp only [runCheck, runAlone_load_error h]
      cases f <;> rfl
    simp [hcode, not_isValid_of_error h]
  | ok s =>
    rw [isValid_iff h, unmarked_iff]
    simp only [runCheck, runAlone_check h]
    cases (s.check Config.standard.table).tree.diagnostics with
    | nil => simp [Result.ended]
    | cons d ds => simp [Result.ended]

theorem runAlone_inspect_marked {source : String} {s : Sheet} (h : parse source = .ok s)
    {d : Diagnostic} {ds : List Diagnostic}
    (hfound : (s.check Config.standard.table).tree.diagnostics = d :: ds) :
    (runAlone do
      load source
      Compiler.checkOrFail .recorder .standard
      Compiler.evaluate .recorder).1 = .error (.diagnostics (d :: ds)) := by
  have hok := (s.check_ok_iff Config.standard.table).mpr (isWellPlaced_of_parse h)
  have hcheck : Work.Tells .recorder (Compiler.checkOrFail .recorder .standard) s _ _ _ :=
    tells_checkOrFail_diagnosed Listener.recorder_neverFails hok hfound (List.cons_ne_nil d ds)
  rw [runAlone_eq ((tells_load _ h).bind (hcheck.bind_error _))]

theorem runAlone_inspect_unmarked {source : String} {s : Sheet} (h : parse source = .ok s)
    (hs : Unmarked s) :
    (runAlone do
      load source
      Compiler.checkOrFail .recorder .standard
      Compiler.evaluate .recorder) = (.ok (), s.evaluate.tree) := by
  have hgate := hs.passesGate h
  have hcheck : Work.Tells .recorder (Compiler.checkOrFail .recorder .standard) s _ _ _ :=
    tells_checkOrFail Listener.recorder_neverFails hgate.checked hgate.clean
  rw [hgate.kept] at hcheck
  exact runAlone_eq ((tells_load _ h).bind
    (hcheck.bind (tells_evaluate Listener.recorder_neverFails hgate.evaluated)))

theorem runInspect_code (source : String) :
    (runInspect source true).code = 0 ↔ IsValid source ∧ ValuesFit source := by
  cases h : parse source with
  | error f =>
    have hcode : (runInspect source true).code = 1 := by
      simp only [runInspect, if_true, runAlone_load_error h]
      cases f <;> rfl
    simp [hcode, not_isValid_of_error h]
  | ok s =>
    rw [isValid_iff h]
    by_cases hs : Unmarked s
    · rw [valuesFit_iff h hs, ← Sheet.outline_iff (hs.isPlain h)]
      simp only [runInspect, if_true, runAlone_inspect_unmarked h hs]
      cases s.evaluate.tree.outline with
      | ok lines => simp [Result.ended, hs]
      | error f => simp [Result.crashed]
    · cases hfound : (s.check Config.standard.table).tree.diagnostics with
      | nil => exact absurd (unmarked_iff.mpr hfound) hs
      | cons d ds =>
        simp only [runInspect, if_true, runAlone_inspect_marked h hfound]
        simp [Result.ended, hs]

/-- Where a text can be written, if it is to be written anywhere. -/
def Writable (files : Files) (output : Option String) : Prop :=
  ∀ path, output = some path → path ≠ "" → writeCrash? files path = none

theorem compile_ok_iff (config : Config) (htable : config.table = Config.standard.table)
    (name source : String) :
    (∃ css, (compile .recorder [] config name source).1 = .ok css) ↔
      IsValid source ∧ ValuesFit source := by
  obtain ⟨events, ended, h⟩ := protocol_exists config name source
  rw [h.compile_eq Listener.recorder_neverFails []]
  cases h with
  | rejected h => simp [not_isValid_of_error h]
  | overlong h => simp [not_isValid_of_error h.parse_eq]
  | @diagnosed s found hparse hfound hne =>
    rw [htable] at hfound
    have hs : ¬ Unmarked s := by
      intro hs
      obtain ⟨p, d, hfilled⟩ := hfound.ne_nil_iff.mp hne
      exact hs p d hfilled
    simp [isValid_iff hparse, hs]
  | @tooLong s v hparse hclean hv hlong =>
    rw [htable] at hclean
    have hs : Unmarked s := hclean
    rw [valuesFit_iff hparse hs]
    simp only [reduceCtorEq, exists_false, false_iff]
    exact fun hfit => hfit.2 v hv hlong
  | @completed s css t hparse h =>
    have hclean := h.clean
    rw [htable] at hclean
    have hs : Unmarked s := unmarked_iff.mpr hclean
    have hwritten := h.written
    rw [h.left, htable, (hs.passesGate hparse).kept] at hwritten
    rw [valuesFit_iff hparse hs, isValid_iff hparse]
    simp only [Except.ok.injEq, exists_eq', true_iff]
    exact ⟨hs, (Sheet.css_iff (hs.isPlain hparse) config.layout).mp ⟨css, hwritten⟩⟩

/-- In a file that is compiled to a text all values fit. -/
theorem valuesFit_of_compile {bytes : ByteArray} {source name css : String}
    (htext : text? bytes = some source) (h : (compile .recorder [] .standard name source).1 = .ok css) :
    ∀ source', text? bytes = some source' → ValuesFit source' := by
  intro source' htext'
  obtain rfl := Option.some.inj (htext.symm.trans htext')
  exact ((compile_ok_iff .standard rfl name source).mp ⟨css, h⟩).2

theorem runCompile_code {files : Files} {output : Option String} (hw : Writable files output)
    (verbose : Bool) (name source : String) (indent : Int) :
    (runCompile files verbose name source output indent).code = 0 ↔
      IsValid source ∧ ValuesFit source := by
  rw [← compile_ok_iff { Config.standard with layout := layoutFor indent } rfl name source]
  simp only [runCompile]
  cases (compile .recorder [] { Config.standard with layout := layoutFor indent } name source).1 with
  | ok css =>
    simp only [Except.ok.injEq, exists_eq', iff_true]
    split
    · rfl
    · rfl
    · rename_i path hpath
      rw [hw path rfl hpath]
      rfl
  | error f =>
    simp only [reduceCtorEq, exists_false, iff_false]
    split
    · rename_i hcss
      cases hcss
    all_goals exact Nat.one_ne_zero

/-- What the compilation finds is what the check finds, and it finds it in the same order. -/
theorem runAlone_check_of_compile (config : Config) (htable : config.table = Config.standard.table)
    {name source : String} {found : List Diagnostic}
    (h : (compile .recorder [] config name source).1 = .error (.diagnostics found)) :
    found ≠ [] ∧ (runAlone do
      load source
      Compiler.check .recorder .standard).1 = .ok found := by
  obtain ⟨events, ended, hprotocol⟩ := protocol_exists config name source
  rw [hprotocol.compile_eq Listener.recorder_neverFails []] at h
  cases hprotocol with
  | rejected | overlong | tooLong | completed => cases h
  | @diagnosed s found' hparse hfound hne =>
    cases h
    rw [htable] at hfound
    refine ⟨hne, ?_⟩
    rw [runAlone_check hparse]
    exact congrArg Except.ok ((Node.reports_diagnostics _).unique hfound)

/-- The words ask for the command, and its file holds the bytes. -/
structure Asks (files : Files) (bytes : ByteArray) (words : List String) (verbose : Bool)
    (command : Command) : Prop where
  requested : ∃ task parsed, readInvocation words = .ok (.request ⟨verbose, task, parsed⟩) ∧
    Request.command files ⟨verbose, task, parsed⟩ = .ok command
  held : files command.file = some (.file bytes)

section

variable {m : Machine} {bytes : ByteArray} {words : List String} {verbose : Bool} {command : Command}

theorem Asks.run_command (h : Asks m.files bytes words verbose command) :
    run m words = runCommand m verbose command := by
  obtain ⟨task, parsed, hread, hcommand⟩ := h.requested
  simp only [run, hread, execute, hcommand]

theorem Asks.run_eq (h : Asks m.files bytes words verbose command) (hindent : indentCrash? command = none)
    (hlasts : m.outOfMemory? verbose command = none) :
    run m words = runOn m.files verbose command bytes := by
  rw [h.run_command]
  simp only [runCommand, hindent, hlasts, h.held]

/-- A command whose indentation cannot be made ends before its file is read. -/
theorem Asks.run_indentCrash (h : Asks m.files bytes words verbose command) {c : Crash}
    (hc : indentCrash? command = some c) : run m words = .crashed "" "" c := by
  rw [h.run_command]
  simp only [runCommand, hc]

theorem Asks.run_outOfMemory (h : Asks m.files bytes words verbose command)
    (hindent : indentCrash? command = none) {t : Traces}
    (ht : m.outOfMemory? verbose command = some t) : run m words = .outOfMemory t := by
  rw [h.run_command]
  simp only [runCommand, hindent, ht]

end

theorem indentCrash?_compile {file : String} {output : Option String} {indent : Int}
    (hlow : -indentRange ≤ indent) (hhigh : indent < indentRange) :
    indentCrash? (.compile file output indent) = none :=
  if_neg (not_or.mpr ⟨Int.not_lt.mpr hlow, Int.not_le.mpr hhigh⟩)

/-- The file holds a valid text. -/
def IsValidFile (bytes : ByteArray) : Prop := ∃ source, text? bytes = some source ∧ IsValid source

/-- Checking, compiling and inspecting the evaluated sheet agree on whether a file is valid, where no
value is too long, the number of spaces fits in 64 bits, memory lasts and the output can be written. The
diagnostics that a compilation prints are those that the check prints, in the same order. -/
theorem commands_agree {m : Machine} {bytes : ByteArray} {checking compiling inspecting : List String}
    {v v' v'' : Bool} {file file' file'' : String} {output : Option String} {indent : Int}
    (hcheck : Asks m.files bytes checking v (.check file))
    (hcompile : Asks m.files bytes compiling v' (.compile file' output indent))
    (hinspect : Asks m.files bytes inspecting v'' (.inspect file'' true))
    (hlow : -indentRange ≤ indent) (hhigh : indent < indentRange)
    (hlasts : m.shortage v' file' output indent = none) :
    ((∀ source, text? bytes = some source → ValuesFit source) → Writable m.files output →
      ((run m checking).code = 0 ↔ IsValidFile bytes) ∧
      ((run m compiling).code = 0 ↔ (run m checking).code = 0) ∧
      ((run m inspecting).code = 0 ↔ (run m checking).code = 0)) ∧
    ∀ source found, text? bytes = some source →
      let ended := compile .recorder [] { Config.standard with layout := layoutFor indent }
        (baseName file') source
      ended.1 = .error (.diagnostics found) →
      run m compiling = .ended 1 "" (logText v' ended.2 ++ echoAll (found.map Diagnostic.text ++
        ["", toString found.length ++ " error(s); no CSS generated."])) ∧
      run m checking =
        .ended 1 (echoAll (found.map Diagnostic.text ++ ["", summary found])) "" := by
  rw [hcheck.run_eq rfl rfl, hcompile.run_eq (indentCrash?_compile hlow hhigh) hlasts,
    hinspect.run_eq rfl rfl]
  constructor
  · intro hfit hwritable
    unfold IsValidFile
    cases htext : text? bytes with
    | none => simp [runOn, htext, Result.crashed]
    | some source =>
      have hvalues := hfit source htext
      simp only [runOn, htext, Option.some.injEq, exists_eq_left', runCheck_code,
        runCompile_code hwritable, runInspect_code]
      exact ⟨trivial, and_iff_left hvalues, and_iff_left hvalues⟩
  · intro source found htext ended hfound
    obtain ⟨hne, hsame⟩ :=
      runAlone_check_of_compile { Config.standard with layout := layoutFor indent } rfl hfound
    simp only [runOn, htext]
    constructor
    · simp only [runCompile, ended, hfound]
    · cases found with
      | nil => exact absurd rfl hne
      | cons d ds => simp only [runCheck, hsame]

/-- A file without diagnostics, and one with two of them. -/
theorem commands_agree_files :
    let clean := "p\x7bwidth:1px;\x7d"
    let marked := "p\x7bwidth:#fff;top:X;\x7d"
    let files : Files := fun path =>
      if path = "a.icss" then some (.file clean.toUTF8)
      else if path = "b.icss" then some (.file marked.toUTF8)
      else none
    let m : Machine := ⟨files, fun _ _ _ _ => none⟩
    let found : List Diagnostic :=
      [⟨"property_type", .type, "Only pixel values can be assigned to property 'width'", some "p"⟩,
        ⟨"undefined_variable", .unresolved, "Variable X is not defined", some "p"⟩]
    (run m ["compile", "--indent", "4", "a.icss"]).code = 0 ∧
      (run m ["inspect", "--evaluated", "a.icss"]).code = 0 ∧
      (∃ log, run m ["compile", "b.icss"] = .ended 1 "" (log ++ echoAll
        (found.map Diagnostic.text ++ ["", "2 error(s); no CSS generated."]))) ∧
      run m ["check", "b.icss"] = .ended 1 (echoAll (found.map Diagnostic.text ++
        ["", "Summary: 1 type error(s), 0 operand error(s), 1 unresolved error(s)"])) "" := by
  intro clean marked files m found
  have hcheck : Asks files clean.toUTF8 ["check", "a.icss"] false (.check "a.icss") :=
    ⟨⟨.check, ⟨[], ["a.icss"]⟩, by decide +kernel, by decide +kernel⟩, rfl⟩
  have hcompile : Asks files clean.toUTF8 ["compile", "--indent", "4", "a.icss"] false
      (.compile "a.icss" none 4) :=
    ⟨⟨.compile, ⟨[⟨.indent, "4"⟩], ["a.icss"]⟩, by decide +kernel, by decide +kernel⟩, rfl⟩
  have hinspect : Asks files clean.toUTF8 ["inspect", "--evaluated", "a.icss"] false
      (.inspect "a.icss" true) :=
    ⟨⟨.inspect, ⟨[⟨.evaluated, ""⟩], ["a.icss"]⟩, by decide +kernel, by decide +kernel⟩, rfl⟩
  have hcheck' : Asks files marked.toUTF8 ["check", "b.icss"] false (.check "b.icss") :=
    ⟨⟨.check, ⟨[], ["b.icss"]⟩, by decide +kernel, by decide +kernel⟩, rfl⟩
  have hcompile' : Asks files marked.toUTF8 ["compile", "b.icss"] false (.compile "b.icss" none 2) :=
    ⟨⟨.compile, ⟨[], ["b.icss"]⟩, by decide +kernel, by decide +kernel⟩, rfl⟩
  have hinspect' : Asks files marked.toUTF8 ["inspect", "--evaluated", "b.icss"] false
      (.inspect "b.icss" true) :=
    ⟨⟨.inspect, ⟨[⟨.evaluated, ""⟩], ["b.icss"]⟩, by decide +kernel, by decide +kernel⟩, rfl⟩
  have hcss : (compile .recorder [] .standard "a.icss" clean).1 =
      .ok "p \x7b\n  width: 1px;\n\x7d\n" := by decide +kernel
  have hfit : ∀ source, text? clean.toUTF8 = some source → ValuesFit source :=
    valuesFit_of_compile (by decide +kernel) hcss
  have hok : (run m ["check", "a.icss"]).code = 0 := by decide +kernel
  have hfound : (compile .recorder [] { Config.standard with layout := layoutFor 2 }
      (baseName "b.icss") marked).1 = .error (.diagnostics found) := by decide +kernel
  have hcount : toString found.length ++ " error(s); no CSS generated." =
      "2 error(s); no CSS generated." := by decide +kernel
  have hsummary : summary found =
      "Summary: 1 type error(s), 0 operand error(s), 1 unresolved error(s)" := by decide +kernel
  obtain ⟨-, hcode, hcode'⟩ := (commands_agree (m := m) hcheck hcompile hinspect (by decide) (by decide) rfl).1 hfit nofun
  obtain ⟨hprinted, hprinted'⟩ :=
    (commands_agree (m := m) hcheck' hcompile' hinspect' (by decide) (by decide) rfl).2 marked found (by decide +kernel) hfound
  rw [hcount] at hprinted
  rw [hsummary] at hprinted'
  exact ⟨hcode.mpr hok, hcode'.mpr hok, ⟨_, hprinted⟩, hprinted'⟩

/-- A valid file is not compiled where the number of spaces does not fit in 64 bits, however much memory
there is, nor where it fits and memory does not hold that many. -/
theorem indent_outOfRange :
    let files : Files := fun path => if path = "a.icss" then some (.file "p\x7b\x7d".toUTF8) else none
    let ample : Machine := ⟨files, fun _ _ _ _ => none⟩
    let scarce : Machine := ⟨files, fun _ _ _ indent =>
      if indent < 9223372036854775807 then none else some ⟨"", "", none⟩⟩
    let check := ["check", "a.icss"]
    let wide := ["compile", "--indent", "9223372036854775807", "a.icss"]
    let wider := ["compile", "--indent", "9223372036854775808", "a.icss"]
    Asks files "p\x7b\x7d".toUTF8 check false (.check "a.icss") ∧
      Asks files "p\x7b\x7d".toUTF8 wide false (.compile "a.icss" none 9223372036854775807) ∧
      Asks files "p\x7b\x7d".toUTF8 wider false (.compile "a.icss" none 9223372036854775808) ∧
      (∀ source, text? "p\x7b\x7d".toUTF8 = some source → ValuesFit source) ∧
      Writable files none ∧
      (run ample check).code = 0 ∧ (run ample wider).code = 1 ∧
      (run scarce check).code = 0 ∧ (run scarce wide).code = 1 := by
  intro files ample scarce check wide wider
  have hcheck : Asks files "p\x7b\x7d".toUTF8 check false (.check "a.icss") :=
    ⟨⟨.check, ⟨[], ["a.icss"]⟩, by decide +kernel, by decide +kernel⟩, rfl⟩
  have hwide : Asks files "p\x7b\x7d".toUTF8 wide false
      (.compile "a.icss" none 9223372036854775807) :=
    ⟨⟨.compile, ⟨[⟨.indent, "9223372036854775807"⟩], ["a.icss"]⟩, by decide +kernel,
      by decide +kernel⟩, rfl⟩
  have hwider : Asks files "p\x7b\x7d".toUTF8 wider false
      (.compile "a.icss" none 9223372036854775808) :=
    ⟨⟨.compile, ⟨[⟨.indent, "9223372036854775808"⟩], ["a.icss"]⟩, by decide +kernel,
      by decide +kernel⟩, rfl⟩
  have hcss : (compile .recorder [] .standard "a.icss" "p\x7b\x7d").1 = .ok "p \x7b\n\x7d\n" := by
    decide +kernel
  have hcrash : run ample wider = .crashed "" "" .indentOutOfRange := hwider.run_indentCrash rfl
  have hstop : run scarce wide = .outOfMemory ⟨"", "", none⟩ := hwide.run_outOfMemory rfl rfl
  refine ⟨hcheck, hwide, hwider, valuesFit_of_compile (by decide +kernel) hcss, nofun,
    by decide +kernel, ?_, by decide +kernel, ?_⟩
  · rw [hcrash]
    rfl
  · rw [hstop]
    rfl

end StyleLang.CommandLine
