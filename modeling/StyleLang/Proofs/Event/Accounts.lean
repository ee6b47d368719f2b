import StyleLang.Proofs.Event.Steps

/-!
# Accounts of registrations

How often a listener is registered in a channel is the number of its registrations there less the number of
those that were removed, since a handle removes one registration or fails. The one that it removes is the
earliest of the same listener in the same channel, whichever registration the handle was returned for; all
others keep their places.
-/

namespace StyleLang

namespace Bus

variable {b b' : Bus} {ts ts' : List Task} {d : Deed} {r : Registration}

theorem mem_listeners : r.listener ∈ b.listeners r.channel ↔ r ∈ b.registrations := by
  simp only [listeners, List.mem_map, List.mem_filter, decide_eq_true_eq]
  constructor
  · rintro ⟨r', ⟨hr', hc⟩, hl⟩
    have heq : r' = r := by
      cases r'
      cases r
      exact congrArg₂ Registration.mk hc hl
    exact heq ▸ hr'
  · exact fun h => ⟨r, ⟨h, rfl⟩, rfl⟩

theorem Step.handles (h : Step b ts d b' ts') : b'.handles = b.handles ++ [d].filterMap Deed.registration? := by
  cases h <;> simp [Deed.registration?]

/-- A registration that is made counts one more, and one that is removed was there and counts one less. -/
theorem Step.count (h : Step b ts d b' ts') (c : Channel) (l : String) :
    (b'.listeners c).count l + [d].count (.removed ⟨c, l⟩) =
      (b.listeners c).count l + [d].count (.registered ⟨c, l⟩) := by
  have hlisteners := h.listeners c
  cases h with
  | @register r =>
    rw [hlisteners]
    obtain ⟨c', l'⟩ := r
    by_cases hc : c' = c <;> by_cases hl : l' = l <;> simp [Deed.change, hc, hl]
  | @remove i r rest hr hmem =>
    rw [hlisteners]
    have hcount := List.count_pos_iff.mpr (mem_listeners.mpr hmem)
    obtain ⟨c', l'⟩ := r
    by_cases hc : c' = c
    · subst hc
      by_cases hl : l' = l
      · subst hl
        simp only [Deed.change, if_true, List.count_erase_self, List.count_singleton_self,
          List.count_singleton, reduceCtorEq, beq_iff_eq, if_false] at hcount ⊢
        omega
      · simp [Deed.change, hl, List.count_erase_of_ne (Ne.symm hl)]
    · simp [Deed.change, hc]
  | call | notRegistered | noSuchHandle | emit | fail => rw [hlisteners]; simp [Deed.change]

/-- A use of a handle that was returned for this registration: it fails and changes nothing if the listener is
not registered in the channel, and else removes the earliest of its registrations there and nothing more. -/
structure HandleUse (b : Bus) (r : Registration) (outcome : Run) : Prop where
  refused : (b.listeners r.channel).count r.listener = 0 → outcome = ⟨b, [], some .notRegistered⟩
  granted : (b.listeners r.channel).count r.listener ≠ 0 → outcome.calls = [] ∧ outcome.failure = none
  earliest : (b.listeners r.channel).count r.listener ≠ 0 → ∃ front back,
    b.listeners r.channel = front ++ r.listener :: back ∧ r.listener ∉ front ∧
      outcome.bus.listeners r.channel = front ++ back
  others : ∀ c, c ≠ r.channel → outcome.bus.listeners c = b.listeners c

theorem handleUse {i : Nat} (hr : b.handles[i]? = some r) :
    HandleUse b r (b.perform (.useHandle i)) := by
  by_cases hmem : r ∈ b.registrations
  · have hstep : Step b [.act (.useHandle i)] (.removed r)
        { b with registrations := b.registrations.erase r } [] := .remove hr hmem
    have hrun : b.perform (.useHandle i) =
        ⟨{ b with registrations := b.registrations.erase r }, [], none⟩ := hstep.run_last
    have hcount := List.count_pos_iff.mpr (mem_listeners.mpr hmem)
    obtain ⟨front, back, hfront, hlist, herase⟩ := List.exists_erase_eq (mem_listeners.mpr hmem)
    rw [hrun]
    refine ⟨fun h => absurd h (Nat.ne_of_gt hcount), fun _ => ⟨rfl, rfl⟩,
      fun _ => ⟨front, back, hlist, hfront, ?_⟩, fun c hc => ?_⟩
    · rw [hstep.listeners, Deed.change, if_pos rfl, herase]
    · rw [hstep.listeners, Deed.change, if_neg (Ne.symm hc)]
  · have hstep : Step b [.act (.useHandle i)] (.failed .notRegistered) b [] := .notRegistered hr hmem
    have hrun : b.perform (.useHandle i) = ⟨b, [], some .notRegistered⟩ := hstep.run_last
    have hcount : (b.listeners r.channel).count r.listener = 0 :=
      List.count_eq_zero.mpr fun h => hmem (mem_listeners.mp h)
    rw [hrun]
    exact ⟨fun _ => rfl, fun h => absurd hcount h, fun h => absurd hcount h, fun _ _ => rfl⟩

theorem perform_register (b : Bus) (r : Registration) : (b.perform (.register r)).failure = none ∧
    ∀ c, (b.perform (.register r)).bus.listeners c =
      b.listeners c ++ if r.channel = c then [r.listener] else [] := by
  have hstep : Step b [.act (.register r)] (.registered r)
    { b with registrations := b.registrations ++ [r], handles := b.handles ++ [r] } [] := .register
  have hrun : b.perform (.register r) =
      ⟨{ b with registrations := b.registrations ++ [r], handles := b.handles ++ [r] }, [], none⟩ :=
    hstep.run_last
  rw [hrun]
  refine ⟨rfl, fun c => ?_⟩
  rw [hstep.listeners, Deed.change]
  split
  · rfl
  · exact (List.append_nil _).symm

/-- The bus is what the log says. -/
structure Accounts (log : List Deed) (b : Bus) : Prop where
  /-- What was registered, in order, without what was removed. -/
  listeners : ∀ c, b.listeners c = registeredIn c log
  count : ∀ c l, (b.listeners c).count l + log.count (.removed ⟨c, l⟩) =
    log.count (.registered ⟨c, l⟩)
  /-- There is a handle for each registration that was made, however often it was used. -/
  handles : b.handles = log.filterMap Deed.registration?
  use : ∀ i r, b.handles[i]? = some r → HandleUse b r (b.perform (.useHandle i))
  register : ∀ r, (b.perform (.register r)).failure = none ∧
    ∀ c, (b.perform (.register r)).bus.listeners c =
      b.listeners c ++ if r.channel = c then [r.listener] else []
  /-- An action among others that are to be done does what it does alone. -/
  next : ∀ a rest, b.run (.act a :: rest) = (b.perform a).andThen fun c => c.run rest

theorem Reached.count {scripts : List (String × List BusAction)} {log : List Deed}
    (h : Reached scripts log b ts) (c : Channel) (l : String) :
    (b.listeners c).count l + log.count (.removed ⟨c, l⟩) = log.count (.registered ⟨c, l⟩) := by
  induction h with
  | silent => rfl
  | outside a h ih => exact ih
  | step h hs ih =>
    have hstep := hs.count c l
    rw [List.count_append, List.count_append]
    omega

theorem Reached.handles {scripts : List (String × List BusAction)} {log : List Deed}
    (h : Reached scripts log b ts) : b.handles = log.filterMap Deed.registration? := by
  induction h with
  | silent => rfl
  | outside a h ih => exact ih
  | step h hs ih => rw [hs.handles, ih, List.filterMap_append]

/-- At every moment of every history, also while listeners are called, the registrations are those that the
log accounts for, and so is what the next use of a handle does. -/
theorem accounts_of_reached {scripts : List (String × List BusAction)} {log : List Deed}
    (h : Reached scripts log b ts) : Accounts log b where
  listeners := h.listeners
  count := h.count
  handles := h.handles
  use _ _ := handleUse
  register := perform_register b
  next a rest := run_append b [.act a] rest

/-- A listener that is called uses the handle of another one's later registration, and the earlier one goes. -/
theorem accounts_of_reached_earliest :
    let first : Registration := ⟨.all, "a"⟩
    let second : Registration := ⟨.all, "b"⟩
    let third : Registration := ⟨.only .phaseStarted, "a"⟩
    let x : Event := .other "x"
    let log : List Deed := [.registered first, .registered second, .registered first, .registered third,
      .began x, .called ⟨"a", x⟩, .called ⟨"b", x⟩]
    let b : Bus := ⟨[first, second, first, third], [first, second, first, third], []⟩
    Reached [("b", [.useHandle 2])] log b [.act (.useHandle 2), .call ⟨"a", x⟩] ∧
      (b.listeners .all).count "a" = 2 ∧
        (b.perform (.useHandle 2)).bus.listeners .all = ["b", "a"] ∧
          (b.perform (.useHandle 2)).bus.listeners (.only .phaseStarted) = ["a"] := by
  intro first second third x log b
  have hreached : Reached [("b", [.useHandle 2])] log b [.act (.useHandle 2), .call ⟨"a", x⟩] :=
    .step (.step (.step (.outside (.emit x) (.step (.outside (.register third) (.step
      (.outside (.register first) (.step (.outside (.register second) (.step
        (.outside (.register first) .silent) .register)) .register)) .register)) .register)) .emit)
          .call) .call
  obtain ⟨-, hcount, -, huse, -, -⟩ := accounts_of_reached hreached
  obtain ⟨-, -, hearliest, hothers⟩ := huse 2 first rfl
  have htwice : (b.listeners .all).count "a" = 2 := hcount .all "a"
  obtain ⟨front, back, hlist, hfront, hafter⟩ := hearliest (by rw [htwice]; decide)
  refine ⟨hreached, htwice, ?_, hothers _ (by decide)⟩
  have hlist : ["a", "b", "a"] = front ++ "a" :: back := hlist
  cases front with
  | nil =>
    cases hlist
    exact hafter
  | cons l front =>
    obtain rfl : "a" = l := (List.cons.inj hlist).1
    exact absurd List.mem_cons_self hfront

end Bus

end StyleLang
