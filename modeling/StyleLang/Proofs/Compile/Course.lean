import StyleLang.Proofs.Compile.Steps

/-!
# What a listener is told

What a compilation tells a listener that never fails, step by step. What such a listener makes of an event
does not reach the compilation, so a step is described by the events it tells, how it ends and the sheet
it leaves. Whether a phase can go in each of the ways described here is not asked.
-/

namespace StyleLang

variable {σ α β : Type}

/-- The listener never fails, whatever it is told. -/
def Listener.NeverFails (l : Listener σ) : Prop := ∀ e heard, (l.hear e heard).2 = none

/-- What a listener has heard after one event after another. -/
def Listener.hearAll (l : Listener σ) (heard : σ) (events : List Event) : σ :=
  events.foldl (fun heard e => (l.hear e heard).1) heard

@[simp] theorem Listener.hearAll_nil (l : Listener σ) (heard : σ) : l.hearAll heard [] = heard := rfl

theorem Listener.hearAll_append (l : Listener σ) (heard : σ) (told later : List Event) :
    l.hearAll heard (told ++ later) = l.hearAll (l.hearAll heard told) later :=
  List.foldl_append

theorem Listener.recorder_neverFails : Listener.recorder.NeverFails := fun _ _ => rfl

/-- The recorder remembers every event, in order. -/
theorem Listener.recorder_hearAll (heard events : List Event) :
    Listener.recorder.hearAll heard events = heard ++ events := by
  induction events generalizing heard with
  | nil => rw [hearAll_nil, List.append_nil]
  | cons e events ih =>
    have hfirst : Listener.recorder.hearAll heard (e :: events) =
        Listener.recorder.hearAll (heard ++ [e]) events := rfl
    rw [hfirst, ih, List.append_assoc, List.singleton_append]

namespace Work

/-- On the sheet `s` the step tells the events, ends as said and leaves the sheet `t`, whatever was heard
before. -/
def Tells (l : Listener σ) (w : Work σ α) (s : Sheet) (events : List Event)
    (ended : Except Failure α) (t : Sheet) : Prop :=
  ∀ heard, w.runOn ⟨heard, s⟩ = (ended, ⟨l.hearAll heard events, t⟩)

namespace Tells

variable {l : Listener σ} {s t u : Sheet} {told later : List Event}

theorem pure (a : α) : Tells l (Pure.pure a) s [] (.ok a) s := fun _ => rfl

theorem throw (e : Failure) : Tells (α := α) l (MonadExcept.throw e) s [] (.error e) s := fun _ => rfl

theorem bind {w : Work σ α} {f : α → Work σ β} {a : α} {ended : Except Failure β}
    (hw : Tells l w s told (.ok a) t) (hf : Tells l (f a) t later ended u) :
    Tells l (w >>= f) s (told ++ later) ended u := by
  intro heard
  rw [runOn_bind, hw heard, Listener.hearAll_append]
  exact hf (l.hearAll heard told)

/-- What comes after a failure is not come to. -/
theorem bind_error {w : Work σ α} {e : Failure} (hw : Tells l w s told (.error e) t)
    (f : α → Work σ β) : Tells l (w >>= f) s told (.error e) t := by
  intro heard
  rw [runOn_bind, hw heard]

/-- A step that looks at the desk first. -/
theorem get_bind {f : Desk σ → Work σ β} {ended : Except Failure β}
    (hf : ∀ heard, Tells l (f ⟨heard, s⟩) s told ended t) : Tells l (get >>= f) s told ended t :=
  fun heard => hf heard heard

end Tells

end Work

/-- The events of a phase that is completed. -/
def Event.phase (name : String) : List Event := [.phaseStarted name, .phaseCompleted name]

namespace Compiler

open Work

variable {l : Listener σ} {config : Config} {s : Sheet}

theorem tells_emit (hl : l.NeverFails) (s : Sheet) (e : Event) :
    Tells l (emit l e) s [e] (.ok ()) s := by
  intro heard
  rw [emit_runOn]
  simp only [hl e heard]
  rfl

theorem tells_pass {f : Sheet → Passage α Sheet Unit} (hok : (f s).result = .ok ()) :
    Tells l (pass f) s [] (.ok ()) (f s).tree := by
  intro heard
  rw [pass_runOn]
  simp only [hok, Listener.hearAll_nil]

/-- Putting a sheet on the desk. -/
theorem tells_put (l : Listener σ) (t s : Sheet) :
    Tells l (modify fun desk : Desk σ => { desk with sheet := s }) t [] (.ok ()) s :=
  fun _ => rfl

theorem tells_parse (hl : l.NeverFails) (t : Sheet) {source : String}
    (h : StyleLang.parse source = .ok s) :
    Tells l (parse l source) t (Event.phase "parse") (.ok s) t := by
  refine (tells_emit hl t _).bind ?_
  simp only [h]
  exact (tells_emit hl t _).bind (.pure s)

theorem tells_parse_rejected (hl : l.NeverFails) (t : Sheet) {source : String} {e : Source.ParseError}
    (h : StyleLang.parse source = .error (.rejected e)) :
    Tells l (parse l source) t [.phaseStarted "parse", .compilationFailed "parse" e.message 0]
      (.error (.source (.rejected e))) t := by
  refine (tells_emit hl t _).bind ?_
  simp only [h]
  exact (tells_emit hl t _).bind (.throw _)

theorem tells_parse_overlong (hl : l.NeverFails) (t : Sheet) {source : String}
    {terminal : Source.Terminal} {n : Nat}
    (h : StyleLang.parse source = .error (.overlong terminal n)) :
    Tells l (parse l source) t [.phaseStarted "parse"] (.error (.source (.overlong terminal n))) t := by
  refine (tells_emit hl t _).bind ?_
  simp only [h]
  exact .throw _

theorem tells_check (hl : l.NeverFails) (hok : (s.check config.table).result = .ok ()) :
    Tells l (check l config) s (Event.phase "check")
      (.ok (s.check config.table).tree.diagnostics) (s.check config.table).tree :=
  (tells_emit hl s _).bind ((tells_pass hok).bind
    ((tells_emit hl _ _).bind (.get_bind fun _ => .pure _)))

theorem tells_checkOrFail (hl : l.NeverFails) (hok : (s.check config.table).result = .ok ())
    (hclean : (s.check config.table).tree.diagnostics = []) :
    Tells l (checkOrFail l config) s (Event.phase "check") (.ok ()) (s.check config.table).tree := by
  refine (tells_check hl hok).bind ?_
  rw [hclean]
  exact .pure ()

theorem tells_checkOrFail_diagnosed (hl : l.NeverFails)
    (hok : (s.check config.table).result = .ok ()) {found : List Diagnostic}
    (hfound : (s.check config.table).tree.diagnostics = found) (hne : found ≠ []) :
    Tells l (checkOrFail l config) s
      (Event.phase "check" ++ [.compilationFailed "check" (rejectionMessage found) found.length])
      (.error (.diagnostics found)) (s.check config.table).tree := by
  refine (tells_check hl hok).bind ?_
  rw [hfound]
  cases found with
  | nil => exact absurd rfl hne
  | cons d ds => exact (tells_emit hl _ _).bind (.throw _)

theorem tells_evaluate (hl : l.NeverFails) (hok : s.evaluate.result = .ok ()) :
    Tells l (evaluate l) s (Event.phase "evaluate") (.ok ()) s.evaluate.tree :=
  (tells_emit hl s _).bind ((tells_pass hok).bind (tells_emit hl _ _))

theorem tells_generate (hl : l.NeverFails) {css : String} (h : s.css config.layout = .ok css) :
    Tells l (generate l config) s (Event.phase "generate") (.ok css) s := by
  refine (tells_emit hl s _).bind (.get_bind fun heard => ?_)
  simp only [h]
  exact (tells_emit hl s _).bind (.pure css)

theorem tells_generate_fault (hl : l.NeverFails) {cause : Fault}
    (h : s.css config.layout = .error cause) :
    Tells l (generate l config) s [.phaseStarted "generate"] (.error (.fault cause)) s := by
  refine (tells_emit hl s _).bind (.get_bind fun heard => ?_)
  simp only [h]
  exact .throw _

/-- A sheet whose check leaves no diagnostic, and which is evaluated: what is left is how it is written. -/
theorem tells_compileSheet (hl : l.NeverFails) (hok : (s.check config.table).result = .ok ())
    (hclean : (s.check config.table).tree.diagnostics = [])
    (hevaluated : (s.check config.table).tree.evaluate.result = .ok ()) {told : List Event}
    {ended : Except Failure String}
    (hgenerate : Tells l (generate l config) (s.check config.table).tree.evaluate.tree told ended
      (s.check config.table).tree.evaluate.tree) :
    Tells l (compileSheet l config) s (Event.phase "check" ++ (Event.phase "evaluate" ++ told)) ended
      (s.check config.table).tree.evaluate.tree :=
  (tells_checkOrFail hl hok hclean).bind ((tells_evaluate hl hevaluated).bind hgenerate)

theorem tells_compileSheet_diagnosed (hl : l.NeverFails)
    (hok : (s.check config.table).result = .ok ()) {found : List Diagnostic}
    (hfound : (s.check config.table).tree.diagnostics = found) (hne : found ≠ []) :
    Tells l (compileSheet l config) s
      (Event.phase "check" ++ [.compilationFailed "check" (rejectionMessage found) found.length])
      (.error (.diagnostics found)) (s.check config.table).tree :=
  (tells_checkOrFail_diagnosed hl hok hfound hne).bind_error _

/-- A text that cannot be read. -/
theorem tells_compile_unread (hl : l.NeverFails) (name : String) {source : String} {t : Sheet}
    {told : List Event} {e : Failure} (h : Tells l (parse l source) t told (.error e) t) :
    Tells l (compile l config name source) t (.compilationStarted name :: told) (.error e) t :=
  (tells_emit hl t _).bind (h.bind_error _)

/-- A text that is read as a sheet that is not compiled. -/
theorem tells_compile_failed (hl : l.NeverFails) (name : String) {source : String}
    (hparse : StyleLang.parse source = .ok s) {told : List Event} {e : Failure} {left : Sheet}
    (h : Tells l (compileSheet l config) s told (.error e) left) (t : Sheet) :
    Tells l (compile l config name source) t
      (.compilationStarted name :: (Event.phase "parse" ++ told)) (.error e) left :=
  (tells_emit hl t _).bind ((tells_parse hl t hparse).bind
    ((tells_put l t s).bind (h.bind_error _)))

/-- A text that is read as a sheet that is compiled. -/
theorem tells_compile (hl : l.NeverFails) (name : String) {source : String}
    (hparse : StyleLang.parse source = .ok s) {told : List Event} {css : String} {left : Sheet}
    (h : Tells l (compileSheet l config) s told (.ok css) left) (t : Sheet) :
    Tells l (compile l config name source) t
      (.compilationStarted name ::
        (Event.phase "parse" ++ (told ++ [.compilationCompleted name left.rules.length])))
      (.ok css) left :=
  (tells_emit hl t _).bind ((tells_parse hl t hparse).bind ((tells_put l t s).bind (h.bind
    (.get_bind fun _ => (tells_emit hl left _).bind (.pure css)))))

end Compiler

end StyleLang
