import StyleLang.Proofs.Event.Steps

/-!
# Emissions

An emission calls the listeners that are registered when it begins: first those registered for all events,
then those registered for the class of the event, in both cases earliest first and each as often as it is
registered. Whatever a listener does on the bus while it is called, emissions of its own included, is done
before the next listener is called, and has no part in who is called. A listener that fails is the last one
that is called; what was registered and removed until then stays so.
-/

namespace StyleLang

namespace Bus

/-- What an emission that begins after this log has to call. -/
def due (log : List Deed) (e : Event) : List Notice :=
  (registeredIn .all log ++ registeredIn (.only e.kind) log).map fun l => ⟨l, e⟩

/-- The listeners are called in turn, each on the bus that the one before it left. With each of them stands
the run of its call, which is all that is done until that call ends. -/
inductive Turns : Bus → List (Notice × Run) → Bus → Prop
  | nil {b} : Turns b [] b
  | cons {b n heard b'} (h : Turns (b.run [.call n]).bus heard b') :
      Turns b ((n, b.run [.call n]) :: heard) b'

/-- An emission with these listeners to be called called those that have heard of it. -/
structure Emission (due : List Notice) (b : Bus) (heard : List (Notice × Run)) (outcome : Run) :
    Prop where
  inOrder : heard.map Prod.fst <+: due
  all : outcome.failure = none → heard.map Prod.fst = due
  turns : Turns b heard outcome.bus
  /-- No listener but the last one failed, and its fault is that of the emission. -/
  unfailed : ∀ h ∈ heard.dropLast, h.2.failure = none
  failure : outcome.failure = heard.getLast?.bind fun h => h.2.failure
  /-- Each listener's own call and, behind it, those of the emissions that it began. -/
  calls : outcome.calls = heard.flatMap fun h => h.2.calls
  own : ∀ h ∈ heard, h.2.calls.head? = some h.1

theorem run_call_head (b : Bus) (n : Notice) : (b.run [.call n]).calls.head? = some n := by
  rw [Step.call.run_eq, Run.andThen_of_none rfl]
  rfl

theorem emission_of_calls (b : Bus) (ns : List Notice) :
    ∃ heard, Emission ns b heard (b.run (ns.map .call)) := by
  induction ns generalizing b with
  | nil =>
    rw [List.map_nil, run_nil]
    exact ⟨[], List.prefix_refl _, fun _ => rfl, .nil, by simp, rfl, rfl, by simp⟩
  | cons n ns ih =>
    have hsplit : (n :: ns).map Task.call = [.call n] ++ ns.map .call := rfl
    rw [hsplit, run_append]
    cases hf : (b.run [.call n]).failure with
    | some cause =>
      rw [Run.andThen_of_some hf]
      refine ⟨[(n, b.run [.call n])], by simp, fun h => ?_, .cons .nil, by simp, by simp, by simp, ?_⟩
      · rw [hf] at h
        cases h
      · simpa using run_call_head b n
    | none =>
      obtain ⟨heard, h⟩ := ih (b.run [.call n]).bus
      rw [Run.andThen_of_none hf]
      refine ⟨(n, b.run [.call n]) :: heard, ?_, fun hnone => ?_, .cons h.turns, ?_, ?_, ?_, ?_⟩
      · simpa using h.inOrder
      · simpa using h.all hnone
      · cases heard with
        | nil => simp
        | cons next heard => simpa [hf] using h.unfailed
      · have hfailure := h.failure
        cases heard with
        | nil => simpa [hf] using hfailure
        | cons next heard => simpa using hfailure
      · simp [h.calls]
      · exact List.forall_mem_cons.mpr ⟨run_call_head b n, h.own⟩

theorem perform_emit (b : Bus) (e : Event) : b.perform (.emit e) = b.run ((b.notices e).map .call) := by
  rw [perform, run, List.append_nil]

theorem Reached.notices {scripts : List (String × List BusAction)} {log : List Deed} {b : Bus}
    {ts : List Task} (h : Reached scripts log b ts) (e : Event) : b.notices e = due log e := by
  rw [Bus.notices, h.listeners, h.listeners, due]

/-- Whenever an emission begins, from outside or while a listener is called, it calls those who are due after
what was done so far, in turn and up to the first that fails. What is done meanwhile is added to the log, and
the log of all that was done says who is registered afterwards. What was to be done behind the emission is
done then, unless the emission failed. -/
theorem emission_snapshot {scripts : List (String × List BusAction)} {log : List Deed} {b : Bus}
    {e : Event} {rest : List Task} (h : Reached scripts log b (.act (.emit e) :: rest)) :
    ∃ heard deeds, Emission (due log e) b heard (b.perform (.emit e)) ∧
      deeds.flatMap Deed.notices = (b.perform (.emit e)).calls ∧
      Reached scripts (log ++ deeds) (b.perform (.emit e)).bus
        (if (b.perform (.emit e)).failure = none then rest else []) ∧
      (∀ c, (b.perform (.emit e)).bus.listeners c = registeredIn c (log ++ deeds)) ∧
      b.run (.act (.emit e) :: rest) = (b.perform (.emit e)).andThen fun c => c.run rest := by
  obtain ⟨heard, hheard⟩ := emission_of_calls b (b.notices e)
  have hfirst : Reached scripts log b ([.act (.emit e)] ++ rest) := h
  obtain ⟨deeds, hreached, hcalls⟩ := hfirst.run
  rw [← perform_emit, h.notices] at hheard
  exact ⟨heard, deeds, hheard, hcalls, hreached, hreached.listeners, run_append b [.act (.emit e)] rest⟩

/-- A listener for all events removes one of two registrations of another listener, registers a third one and
emits an event itself; the other listener is called all the same, fails, and is not called again. -/
theorem emission_snapshot_reentrant :
    let first : Registration := ⟨.all, "a"⟩
    let second : Registration := ⟨.only .phaseStarted, "b"⟩
    let scripts : List (String × List BusAction) :=
      [("a", [.useHandle 1, .register ⟨.all, "c"⟩, .emit (.other "y")]), ("b", [.fail "m"])]
    let log : List Deed := [.registered first, .registered second, .registered second]
    let b : Bus := ⟨[first, second, second], [first, second, second], scripts⟩
    let x : Event := .phaseStarted "x"
    let ended := b.perform (.emit x)
    Reached scripts log b [.act (.emit x)] ∧
      ended.calls = [⟨"a", x⟩, ⟨"a", .other "y"⟩, ⟨"c", .other "y"⟩, ⟨"b", x⟩] ∧
        ended.failure = some (.raised "m") ∧
          ∃ heard deeds, Emission [⟨"a", x⟩, ⟨"b", x⟩, ⟨"b", x⟩] b heard ended ∧
            registeredIn .all (log ++ deeds) = ["a", "c"] ∧
              registeredIn (.only .phaseStarted) (log ++ deeds) = ["b"] := by
  intro first second scripts log b x ended
  have hreached : Reached scripts log b [.act (.emit x)] :=
    .outside _ (.step (.outside (.register second) (.step (.outside (.register second)
      (.step (.outside (.register first) .silent) .register)) .register)) .register)
  have hended : ended = ⟨⟨[first, second, ⟨.all, "c"⟩], [first, second, second, ⟨.all, "c"⟩], []⟩,
      [⟨"a", x⟩, ⟨"a", .other "y"⟩, ⟨"c", .other "y"⟩, ⟨"b", x⟩], some (.raised "m")⟩ := by
    simp [ended, b, x, scripts, first, second, perform, run, notices, listeners, takeScript, Event.kind]
  obtain ⟨heard, deeds, hheard, -, -, hafter, -⟩ := emission_snapshot hreached
  refine ⟨hreached, by rw [hended], by rw [hended], heard, deeds, hheard, ?_, ?_⟩
  · rw [← hafter, ← show ended = b.perform (.emit x) from rfl, hended]
    rfl
  · rw [← hafter, ← show ended = b.perform (.emit x) from rfl, hended]
    rfl

end Bus

end StyleLang
