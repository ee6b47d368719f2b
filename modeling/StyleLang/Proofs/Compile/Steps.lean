import StyleLang.Compile.Compiler

/-!
# The course of a compilation

What a compilation that ends with a text has gone through, and how one goes on a sheet that no pass changes:
it ends with the text of the sheet and leaves the sheet as it is, unless the listener fails. What the
listener hears is left open.
-/

namespace StyleLang

variable {σ α β : Type}

/-- At some event, in some state, the listener fails with this message. -/
def Listener.FailsWith (l : Listener σ) (message : String) : Prop :=
  ∃ e heard, (l.hear e heard).2 = some message

namespace Work

theorem runOn_bind (w : Work σ α) (f : α → Work σ β) (desk : Desk σ) :
    (w >>= f).runOn desk = match w.runOn desk with
      | (.ok a, left) => (f a).runOn left
      | (.error e, left) => (.error e, left) := by
  simp only [runOn, ExceptT.run_bind, StateT.run_bind]
  cases StateT.run w.run desk with
  | mk r left => cases r <;> rfl

theorem runOn_bind_ok {w : Work σ α} {f : α → Work σ β} {desk left : Desk σ} {b : β} :
    (w >>= f).runOn desk = (.ok b, left) ↔
      ∃ a mid, w.runOn desk = (.ok a, mid) ∧ (f a).runOn mid = (.ok b, left) := by
  rw [runOn_bind]
  cases w.runOn desk with
  | mk r mid =>
    cases r with
    | error e => simp
    | ok a =>
      constructor
      · exact fun h => ⟨a, mid, rfl, h⟩
      · rintro ⟨a', mid', ⟨⟩, h⟩
        exact h

/-- Run on the desk the step ends with `a`, unless the listener fails. -/
def EndsWith (l : Listener σ) (w : Work σ α) (desk : Desk σ) (a : α) : Prop :=
  (w.runOn desk).1 = .ok a ∨
    ∃ message, l.FailsWith message ∧ (w.runOn desk).1 = .error (.listener message)

/-- On the sheet `t` the step ends with `a`, unless the listener fails, and in either case leaves the sheet
as it is. -/
def Rests (l : Listener σ) (t : Sheet) (w : Work σ α) (a : α) : Prop :=
  ∀ heard, ∃ heard', w.runOn ⟨heard, t⟩ = (.ok a, ⟨heard', t⟩) ∨
    ∃ message, l.FailsWith message ∧
      w.runOn ⟨heard, t⟩ = (.error (.listener message), ⟨heard', t⟩)

namespace Rests

variable {l : Listener σ} {t : Sheet}

theorem pure (a : α) : Rests l t (Pure.pure a) a := fun heard => ⟨heard, Or.inl rfl⟩

theorem bind {w : Work σ α} {f : α → Work σ β} {a : α} {b : β} (hw : Rests l t w a)
    (hf : Rests l t (f a) b) : Rests l t (w >>= f) b := by
  intro heard
  obtain ⟨mid, hrun | ⟨message, hfails, hrun⟩⟩ := hw heard
  · rw [runOn_bind, hrun]
    exact hf mid
  · rw [runOn_bind, hrun]
    exact ⟨mid, Or.inr ⟨message, hfails, rfl⟩⟩

theorem endsWith {w : Work σ α} {a : α} (hw : Rests l t w a) (heard : σ) :
    EndsWith l w ⟨heard, t⟩ a := by
  obtain ⟨heard', hrun | ⟨message, hfails, hrun⟩⟩ := hw heard
  · exact Or.inl (congrArg Prod.fst hrun)
  · exact Or.inr ⟨message, hfails, congrArg Prod.fst hrun⟩

theorem sheet_eq {w : Work σ α} {a : α} (hw : Rests l t w a) (heard : σ) :
    (w.runOn ⟨heard, t⟩).2.sheet = t := by
  obtain ⟨heard', hrun | ⟨message, -, hrun⟩⟩ := hw heard <;> rw [hrun]

theorem bind_endsWith {w : Work σ α} {f : α → Work σ β} {a : α} {b : β} (hw : Rests l t w a)
    (hf : ∀ heard, EndsWith l (f a) ⟨heard, t⟩ b) (heard : σ) :
    EndsWith l (w >>= f) ⟨heard, t⟩ b := by
  obtain ⟨heard', hrun | ⟨message, hfails, hrun⟩⟩ := hw heard
  · have hmid := hf heard'
    unfold EndsWith at hmid ⊢
    rw [runOn_bind, hrun]
    exact hmid
  · refine Or.inr ⟨message, hfails, ?_⟩
    rw [runOn_bind, hrun]

/-- A step that looks at the desk first. -/
theorem get_bind {f : Desk σ → Work σ β} {b : β} (hf : ∀ heard, Rests l t (f ⟨heard, t⟩) b) :
    Rests l t (get >>= f) b :=
  fun heard => hf heard heard

end Rests

end Work

namespace Compiler

open Work

variable {l : Listener σ} {config : Config} {desk left : Desk σ}

theorem emit_runOn (l : Listener σ) (e : Event) (desk : Desk σ) :
    (emit l e).runOn desk = match (l.hear e desk.heard).2 with
      | none => (.ok (), ⟨(l.hear e desk.heard).1, desk.sheet⟩)
      | some message => (.error (.listener message), ⟨(l.hear e desk.heard).1, desk.sheet⟩) := by
  have hrun : (emit l e).runOn desk = Work.runOn (match (l.hear e desk.heard).2 with
      | none => pure ()
      | some message => throw (.listener message)) ⟨(l.hear e desk.heard).1, desk.sheet⟩ := rfl
  rw [hrun]
  cases (l.hear e desk.heard).2 <;> rfl

theorem pass_runOn (f : Sheet → Passage α Sheet Unit) (desk : Desk σ) :
    (pass f).runOn desk = match (f desk.sheet).result with
      | .ok () => (.ok (), ⟨desk.heard, (f desk.sheet).tree⟩)
      | .error cause => (.error (.fault cause), ⟨desk.heard, (f desk.sheet).tree⟩) := by
  have hrun : (pass f).runOn desk = Work.runOn (match (f desk.sheet).result with
      | .ok () => pure ()
      | .error cause => throw (.fault cause)) ⟨desk.heard, (f desk.sheet).tree⟩ := rfl
  rw [hrun]
  cases (f desk.sheet).result <;> rfl

theorem sheet_of_emit {e : Event} {u : Unit} (h : (emit l e).runOn desk = (.ok u, left)) :
    left.sheet = desk.sheet := by
  rw [emit_runOn] at h
  split at h
  · cases h
    rfl
  · cases h

theorem pass_ok {f : Sheet → Passage α Sheet Unit} {u : Unit}
    (h : (pass f).runOn desk = (.ok u, left)) :
    (f desk.sheet).result = .ok () ∧ left.sheet = (f desk.sheet).tree := by
  rw [pass_runOn] at h
  split at h
  · rename_i hok
    cases h
    exact ⟨hok, rfl⟩
  · cases h

theorem rests_emit (l : Listener σ) (t : Sheet) (e : Event) : Rests l t (emit l e) () := by
  intro heard
  refine ⟨(l.hear e heard).1, ?_⟩
  rw [emit_runOn]
  cases h : (l.hear e heard).2 with
  | none => exact Or.inl rfl
  | some message => exact Or.inr ⟨message, ⟨e, heard, h⟩, rfl⟩

theorem rests_pass {t : Sheet} {f : Sheet → Passage α Sheet Unit} (hok : (f t).result = .ok ())
    (htree : (f t).tree = t) : Rests l t (pass f) () := by
  intro heard
  refine ⟨heard, Or.inl ?_⟩
  rw [pass_runOn]
  simp only [hok, htree]

theorem parse_ok {source : String} {s : Sheet} (h : (parse l source).runOn desk = (.ok s, left)) :
    StyleLang.parse source = .ok s := by
  obtain ⟨_, started, -, h⟩ := runOn_bind_ok.mp h
  cases hparse : StyleLang.parse source with
  | ok s' =>
    rw [hparse] at h
    obtain ⟨_, completed, -, h⟩ := runOn_bind_ok.mp h
    cases h
    rfl
  | error cause =>
    rw [hparse] at h
    cases cause with
    | rejected e =>
      obtain ⟨_, _, -, h⟩ := runOn_bind_ok.mp h
      cases h
    | overlong t n => cases h

theorem rests_parse (t : Sheet) {source : String} {s : Sheet} (h : StyleLang.parse source = .ok s) :
    Rests l t (parse l source) s := by
  refine (rests_emit l t _).bind ?_
  simp only [h]
  exact (rests_emit l t _).bind (.pure s)

theorem check_ok {found : List Diagnostic} (h : (check l config).runOn desk = (.ok found, left)) :
    (desk.sheet.check config.table).result = .ok () ∧
      left.sheet = (desk.sheet.check config.table).tree ∧ found = left.sheet.diagnostics := by
  obtain ⟨_, started, hstart, h⟩ := runOn_bind_ok.mp h
  obtain ⟨_, checked, hpass, h⟩ := runOn_bind_ok.mp h
  obtain ⟨_, completed, hend, h⟩ := runOn_bind_ok.mp h
  obtain ⟨hok, htree⟩ := pass_ok hpass
  rw [sheet_of_emit hstart] at hok htree
  cases h
  rw [sheet_of_emit hend]
  exact ⟨hok, htree, rfl⟩

theorem checkOrFail_ok {u : Unit} (h : (checkOrFail l config).runOn desk = (.ok u, left)) :
    (desk.sheet.check config.table).result = .ok () ∧
      left.sheet = (desk.sheet.check config.table).tree ∧ left.sheet.diagnostics = [] := by
  obtain ⟨found, checked, hcheck, h⟩ := runOn_bind_ok.mp h
  obtain ⟨hok, htree, hfound⟩ := check_ok hcheck
  cases found with
  | nil =>
    cases h
    exact ⟨hok, htree, hfound.symm⟩
  | cons d ds =>
    obtain ⟨_, _, _, h⟩ := runOn_bind_ok.mp h
    cases h

theorem evaluate_ok {u : Unit} (h : (evaluate l).runOn desk = (.ok u, left)) :
    desk.sheet.evaluate.result = .ok () ∧ left.sheet = desk.sheet.evaluate.tree := by
  obtain ⟨_, started, hstart, h⟩ := runOn_bind_ok.mp h
  obtain ⟨_, evaluated, hpass, h⟩ := runOn_bind_ok.mp h
  obtain ⟨hok, htree⟩ := pass_ok hpass
  rw [sheet_of_emit hstart] at hok htree
  rw [sheet_of_emit h]
  exact ⟨hok, htree⟩

theorem generate_ok {css : String} (h : (generate l config).runOn desk = (.ok css, left)) :
    desk.sheet.css config.layout = .ok css ∧ left.sheet = desk.sheet := by
  obtain ⟨_, started, hstart, h⟩ := runOn_bind_ok.mp h
  rw [← sheet_of_emit hstart]
  obtain ⟨_, _, ⟨⟩, h⟩ := runOn_bind_ok.mp h
  cases hcss : started.sheet.css config.layout with
  | error cause =>
    rw [hcss] at h
    cases h
  | ok text =>
    rw [hcss] at h
    obtain ⟨_, completed, hend, h⟩ := runOn_bind_ok.mp h
    cases h
    exact ⟨rfl, sheet_of_emit hend⟩

end Compiler

/-- The sheet `s` is compiled to a text, by way of the sheet `t` that is written. -/
structure Sheet.CompilesTo (config : Config) (s : Sheet) (css : String) (t : Sheet) : Prop where
  checked : (s.check config.table).result = .ok ()
  clean : (s.check config.table).tree.diagnostics = []
  evaluated : (s.check config.table).tree.evaluate.result = .ok ()
  left : t = (s.check config.table).tree.evaluate.tree
  written : t.css config.layout = .ok css

namespace Compiler

open Work

variable {l : Listener σ} {config : Config} {desk left : Desk σ} {css : String}

theorem compileSheet_ok (h : (compileSheet l config).runOn desk = (.ok css, left)) :
    desk.sheet.CompilesTo config css left.sheet := by
  obtain ⟨_, checked, hcheck, h⟩ := runOn_bind_ok.mp h
  obtain ⟨_, evaluated, hevaluate, h⟩ := runOn_bind_ok.mp h
  obtain ⟨hok, htree, hclean⟩ := checkOrFail_ok hcheck
  obtain ⟨heval, hleft⟩ := evaluate_ok hevaluate
  obtain ⟨hcss, hsame⟩ := generate_ok h
  rw [htree] at hclean heval hleft
  rw [← hsame] at hcss hleft
  exact ⟨hok, hclean, heval, hleft, hcss⟩

theorem compile_ok {name source : String}
    (h : (compile l config name source).runOn desk = (.ok css, left)) :
    ∃ s, StyleLang.parse source = .ok s ∧ s.CompilesTo config css left.sheet := by
  obtain ⟨_, started, hstart, h⟩ := runOn_bind_ok.mp h
  obtain ⟨s, parsed, hparse, h⟩ := runOn_bind_ok.mp h
  obtain ⟨_, ready, ⟨⟩, h⟩ := runOn_bind_ok.mp h
  obtain ⟨text, compiled, hcompile, h⟩ := runOn_bind_ok.mp h
  obtain ⟨_, _, ⟨⟩, h⟩ := runOn_bind_ok.mp h
  obtain ⟨_, completed, hend, h⟩ := runOn_bind_ok.mp h
  cases h
  rw [sheet_of_emit hend]
  exact ⟨s, parse_ok hparse, compileSheet_ok hcompile⟩

/-- On a sheet that neither checking nor evaluation changes. -/
theorem rests_compileSheet {t : Sheet} (hchecked : (t.check config.table).result = .ok ())
    (hsame : (t.check config.table).tree = t) (hclean : t.diagnostics = [])
    (hevaluated : t.evaluate.result = .ok ()) (hleft : t.evaluate.tree = t)
    (hcss : t.css config.layout = .ok css) : Rests l t (compileSheet l config) css := by
  have hcheck : Rests l t (check l config) [] := by
    rw [← hclean]
    exact (rests_emit l t _).bind ((rests_pass hchecked hsame).bind
      ((rests_emit l t _).bind (.get_bind fun _ => .pure _)))
  have hgate : Rests l t (checkOrFail l config) () := hcheck.bind (.pure ())
  have hevaluate : Rests l t (evaluate l) () :=
    (rests_emit l t _).bind ((rests_pass hevaluated hleft).bind (rests_emit l t _))
  have hgenerate : Rests l t (generate l config) css := by
    refine (rests_emit l t _).bind (.get_bind fun heard => ?_)
    simp only [hcss]
    exact (rests_emit l t _).bind (.pure css)
  exact hgate.bind (hevaluate.bind hgenerate)

/-- A text that is read as a sheet on which the compilation rests. -/
theorem compile_endsWith {source : String} {t : Sheet} (hparse : StyleLang.parse source = .ok t)
    (hrests : Rests l t (compileSheet l config) css) (name : String) (desk : Desk σ) :
    EndsWith l (compile l config name source) desk css := by
  have hrest : Rests l t (do
      let text ← compileSheet l config
      emit l (.compilationCompleted name (← get).sheet.rules.length)
      return text) css :=
    hrests.bind (.get_bind fun _ => (rests_emit l t _).bind (.pure css))
  -- Putting the sheet on the desk is the one step that does not rest.
  exact (rests_emit l desk.sheet _).bind_endsWith
    (fun _ => (rests_parse desk.sheet hparse).bind_endsWith (fun heard => hrest.endsWith heard) _)
    desk.heard

end Compiler

end StyleLang
