import StyleLang.Proofs.Compile.Steps

/-!
# A listener that breaks off

A listener that fails at the event of a given number hears what a listener that never fails hears, up to
that event and no further, and its failure is how the compilation ends. This holds of every step, because
a step is composed of steps that tell one event or none; which events there are is not asked.
-/

namespace StyleLang

variable {α β : Type}

/-- What a step with the listener that remembers everything comes to, and with the one that fails at
event number `n`: the second is broken off there if the first comes to that event, and is no different if
not. -/
inductive BreaksOff (n : Nat) :
    Except Failure α × Desk (List Event) → Except Failure α × Desk (List Event) → Prop
  | untouched {run} (h : run.2.heard.length ≤ n) : BreaksOff n run run
  | broken {run run'} (h : n < run.2.heard.length)
      (hended : run'.1 = .error (.listener "listener aborted"))
      (hheard : run'.2.heard = run.2.heard.take (n + 1)) : BreaksOff n run run'

namespace Work

/-- A step that can be broken off at every event that it tells, and nowhere else. -/
structure Breakable (w : Listener (List Event) → Work (List Event) α) : Prop where
  /-- What was heard before stays heard. -/
  goesOn : ∀ desk, desk.heard <+: ((w .recorder).runOn desk).2.heard
  breaksOff : ∀ n desk, desk.heard.length ≤ n →
    BreaksOff n ((w .recorder).runOn desk) ((w (.aborting n)).runOn desk)

namespace Breakable

/-- A step that tells nothing. -/
theorem silent {w : Work (List Event) α} (h : ∀ desk, (w.runOn desk).2.heard = desk.heard) :
    Breakable fun _ => w where
  goesOn desk := (h desk).symm ▸ List.prefix_refl desk.heard
  breaksOff n desk hn := .untouched (by rwa [h])

theorem pure (a : α) : Breakable fun _ => (Pure.pure a : Work (List Event) α) := silent fun _ => rfl

theorem throw (e : Failure) : Breakable fun _ => (MonadExcept.throw e : Work (List Event) α) :=
  silent fun _ => rfl

theorem get : Breakable fun _ => (MonadState.get : Work (List Event) (Desk (List Event))) :=
  silent fun _ => rfl

/-- Once the listener has failed, nothing of the second step is come to. Until then the first step was as
if the listener did not fail. -/
theorem bind {w : Listener (List Event) → Work (List Event) α}
    {f : Listener (List Event) → α → Work (List Event) β} (hw : Breakable w)
    (hf : ∀ a, Breakable fun l => f l a) : Breakable fun l => w l >>= f l where
  goesOn desk := by
    have hfirst := hw.goesOn desk
    simp only [runOn_bind]
    cases hrun : (w .recorder).runOn desk with
    | mk ended left =>
      rw [hrun] at hfirst
      cases ended with
      | error e => exact hfirst
      | ok a => exact hfirst.trans ((hf a).goesOn left)
  breaksOff n desk hn := by
    have hfirst := hw.breaksOff n desk hn
    simp only [runOn_bind]
    cases hrun : (w .recorder).runOn desk with
    | mk ended left =>
      rw [hrun] at hfirst
      generalize (w (.aborting n)).runOn desk = run' at hfirst
      cases hfirst with
      | untouched hlen =>
        cases ended with
        | error e => exact .untouched hlen
        | ok a => exact (hf a).breaksOff n left hlen
      | broken hlen hended hheard =>
        obtain ⟨ended', left'⟩ := run'
        obtain rfl : ended' = .error (.listener "listener aborted") := hended
        obtain hheard : left'.heard = left.heard.take (n + 1) := hheard
        cases ended with
        | error e => exact .broken hlen rfl hheard
        | ok a =>
          obtain ⟨later, hlater⟩ := (hf a).goesOn left
          refine .broken ?_ rfl ?_
          · rw [← hlater, List.length_append]
            exact Nat.lt_add_right later.length hlen
          · rw [← hlater, List.take_append_of_le_length hlen]
            exact hheard

end Breakable

end Work

namespace Compiler

open Work

theorem breakable_emit (e : Event) : Breakable fun l => emit l e where
  goesOn desk := by
    rw [emit_runOn]
    exact List.prefix_append desk.heard [e]
  breaksOff n desk hn := by
    have hrecorded : (emit .recorder e).runOn desk = (.ok (), ⟨desk.heard ++ [e], desk.sheet⟩) := by
      rw [emit_runOn]
      rfl
    rw [hrecorded, emit_runOn]
    by_cases hlen : desk.heard.length = n
    · simp only [Listener.aborting, hlen, if_true]
      refine .broken ?_ rfl ?_
      · rw [List.length_append, hlen]
        exact Nat.lt_succ_self n
      · exact (List.take_of_length_le (by simp [hlen])).symm
    · simp only [Listener.aborting, hlen, if_false]
      refine .untouched ?_
      rw [List.length_append, List.length_singleton]
      omega

theorem breakable_pass (f : Sheet → Passage α Sheet Unit) :
    Breakable fun _ => (pass f : Work (List Event) Unit) := by
  refine .silent fun desk => ?_
  rw [pass_runOn]
  cases (f desk.sheet).result <;> rfl

theorem breakable_parse (source : String) : Breakable fun l => parse l source := by
  refine .bind (breakable_emit _) fun _ => ?_
  cases StyleLang.parse source with
  | ok s => exact .bind (breakable_emit _) fun _ => .pure s
  | error cause =>
    cases cause with
    | rejected e => exact .bind (breakable_emit _) fun _ => .throw _
    | overlong t n => exact .throw _

theorem breakable_check (config : Config) : Breakable fun l => check l config :=
  .bind (breakable_emit _) fun _ => .bind (breakable_pass _) fun _ =>
    .bind (breakable_emit _) fun _ => .bind .get fun desk => .pure desk.sheet.diagnostics

theorem breakable_checkOrFail (config : Config) : Breakable fun l => checkOrFail l config := by
  refine .bind (breakable_check config) fun found => ?_
  cases found with
  | nil => exact .pure ()
  | cons d ds => exact .bind (breakable_emit _) fun _ => .throw _

theorem breakable_evaluate : Breakable fun l => evaluate l :=
  .bind (breakable_emit _) fun _ => .bind (breakable_pass _) fun _ => breakable_emit _

theorem breakable_generate (config : Config) : Breakable fun l => generate l config := by
  refine .bind (breakable_emit _) fun _ => .bind .get fun desk => ?_
  cases desk.sheet.css config.layout with
  | ok css => exact .bind (breakable_emit _) fun _ => .pure css
  | error cause => exact .throw _

theorem breakable_compileSheet (config : Config) : Breakable fun l => compileSheet l config :=
  .bind (breakable_checkOrFail config) fun _ => .bind breakable_evaluate fun _ =>
    breakable_generate config

theorem breakable_compile (config : Config) (name source : String) :
    Breakable fun l => compile l config name source := by
  refine .bind (breakable_emit _) fun _ => .bind (breakable_parse source) fun s => ?_
  have hput : Breakable fun _ =>
      (modify fun desk => { desk with sheet := s } : Work (List Event) Unit) := .silent fun _ => rfl
  exact .bind hput fun _ => .bind (breakable_compileSheet config) fun css =>
    .bind .get fun _ => .bind (breakable_emit _) fun _ => .pure css

end Compiler

/-- A compilation with a listener that fails at event number `n` tells the events of the compilation that
is left alone up to that one, and ends there with the listener's failure, whatever would have come after;
if there is no such event, it is the compilation that is left alone. -/
theorem compile_breaksOff (config : Config) (name source : String) (n : Nat) :
    let whole := compile .recorder [] config name source
    compile (.aborting n) [] config name source =
      if n < whole.2.length then (.error (.listener "listener aborted"), whole.2.take (n + 1))
      else whole := by
  have hbreaks := (Compiler.breakable_compile config name source).breaksOff n ⟨[], ⟨none, []⟩⟩
    (Nat.zero_le n)
  simp only [compile]
  generalize (Compiler.compile (.aborting n) config name source).runOn ⟨[], ⟨none, []⟩⟩ = run' at *
  cases hbreaks with
  | untouched h => exact (if_neg (Nat.not_lt.mpr h)).symm
  | broken h hended hheard =>
    rw [hended, hheard]
    exact (if_pos h).symm

end StyleLang
