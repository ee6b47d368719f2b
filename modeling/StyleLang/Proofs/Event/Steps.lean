import Mathlib.Data.List.Induction
import StyleLang.Event.Bus

/-!
# The bus step by step

A run on the bus as steps, each of which does one thing: a listener is called, a registration is made or
removed, an emission begins, or a fault ends what is under way. What was done so far is a log, and the log
alone says which listeners are registered where, in which order. The moments of all histories, from a bus on
which nothing is registered, are those that `Reached` holds of: also those within a call of a listener, and
those after a fault.
-/

namespace StyleLang

namespace Bus

/-- A run and, unless it failed, another one on the bus that it left. -/
def Run.andThen (first : Run) (second : Bus → Run) : Run :=
  match first.failure with
  | none =>
    ⟨(second first.bus).bus, first.calls ++ (second first.bus).calls, (second first.bus).failure⟩
  | some _ => first

theorem Run.andThen_of_none {first : Run} (h : first.failure = none) (second : Bus → Run) :
    first.andThen second =
      ⟨(second first.bus).bus, first.calls ++ (second first.bus).calls, (second first.bus).failure⟩ := by
  simp only [Run.andThen, h]

theorem Run.andThen_of_some {first : Run} {cause : BusFault} (h : first.failure = some cause)
    (second : Bus → Run) : first.andThen second = first := by
  simp only [Run.andThen, h]

theorem Run.andThen_assoc (first : Run) (second third : Bus → Run) :
    (first.andThen second).andThen third = first.andThen fun b => (second b).andThen third := by
  cases h : first.failure with
  | some cause => rw [andThen_of_some h, andThen_of_some h, andThen_of_some h]
  | none => cases h' : (second first.bus).failure <;> simp [andThen, h, h']

/-- What is done in one step. -/
inductive Deed where
  | called (notice : Notice)
  | registered (registration : Registration)
  | removed (registration : Registration)
  | began (event : Event)
  | failed (cause : BusFault)
  deriving DecidableEq

namespace Deed

def notices : Deed → List Notice
  | called n => [n]
  | _ => []

def fault? : Deed → Option BusFault
  | failed cause => some cause
  | _ => none

def registration? : Deed → Option Registration
  | registered r => some r
  | _ => none

/-- A run that does this alone. -/
def run (d : Deed) (b : Bus) : Run := ⟨b, d.notices, d.fault?⟩

/-- What becomes of the listeners of a channel. -/
def change (c : Channel) (ls : List String) : Deed → List String
  | registered r => if r.channel = c then ls ++ [r.listener] else ls
  | removed r => if r.channel = c then ls.erase r.listener else ls
  | _ => ls

end Deed

/-- On a bus with these tasks to be done, the step that is next, the bus that it leaves, and what is to be
done then. -/
inductive Step : Bus → List Task → Deed → Bus → List Task → Prop
  | call {b n rest} : Step b (.call n :: rest) (.called n)
      { b with scripts := (takeScript n.listener b.scripts).2 }
      ((takeScript n.listener b.scripts).1.map .act ++ rest)
  | register {b r rest} : Step b (.act (.register r) :: rest) (.registered r)
      { b with registrations := b.registrations ++ [r], handles := b.handles ++ [r] } rest
  | remove {b i r rest} (hr : b.handles[i]? = some r) (h : r ∈ b.registrations) :
      Step b (.act (.useHandle i) :: rest) (.removed r)
        { b with registrations := b.registrations.erase r } rest
  | notRegistered {b i r rest} (hr : b.handles[i]? = some r) (h : r ∉ b.registrations) :
      Step b (.act (.useHandle i) :: rest) (.failed .notRegistered) b []
  | noSuchHandle {b i rest} (hi : b.handles[i]? = none) :
      Step b (.act (.useHandle i) :: rest) (.failed .noSuchHandle) b []
  | emit {b e rest} : Step b (.act (.emit e) :: rest) (.began e) b ((b.notices e).map .call ++ rest)
  | fail {b m rest} : Step b (.act (.fail m) :: rest) (.failed (.raised m)) b []

section

variable {b b' : Bus} {ts ts' : List Task} {d : Deed}

/-- Tasks behind those that are under way wait, or are dropped with them. -/
theorem Step.append (h : Step b ts d b' ts') (us : List Task) :
    Step b (ts ++ us) d b' (if d.fault? = none then ts' ++ us else []) := by
  cases h with
  | call => simpa [Deed.fault?] using Step.call
  | register => exact .register
  | remove hr hmem => exact .remove hr hmem
  | notRegistered hr hmem => exact .notRegistered hr hmem
  | noSuchHandle hi => exact .noSuchHandle hi
  | emit => simpa [Deed.fault?] using Step.emit
  | fail => exact .fail

/-- A run takes the next step and then runs on. -/
theorem Step.run_eq (h : Step b ts d b' ts') : b.run ts = (d.run b').andThen fun c => c.run ts' := by
  cases h with
  | call => rw [run]; rfl
  | register => rw [run]; rfl
  | remove hr hmem => simp only [run, hr, if_pos hmem]; rfl
  | notRegistered hr hmem => simp only [run, hr, if_neg hmem]; rfl
  | noSuchHandle hi => simp only [run, hi]; rfl
  | emit => rw [run]; rfl
  | fail => rw [run]; rfl

end

/-- To show something of all buses and tasks, show it where nothing is to be done and carry it back over one
step. -/
theorem run_induction {motive : Bus → List Task → Prop} (done : ∀ b, motive b [])
    (next : ∀ b ts d b' ts', Step b ts d b' ts' → motive b' ts' → motive b ts) (b : Bus)
    (ts : List Task) : motive b ts := by
  induction b, ts using run.induct with
  | case1 b => exact done b
  | case2 b n rest taken ih => exact next _ _ _ _ _ .call ih
  | case3 b r rest ih => exact next _ _ _ _ _ .register ih
  | case4 b i rest hi => exact next _ _ _ _ _ (.noSuchHandle hi) (done b)
  | case5 b i rest r hr hmem ih => exact next _ _ _ _ _ (.remove hr hmem) ih
  | case6 b i rest r hr hmem => exact next _ _ _ _ _ (.notRegistered hr hmem) (done b)
  | case7 b e rest ih => exact next _ _ _ _ _ .emit ih
  | case8 b m rest => exact next _ _ _ _ _ .fail (done b)

theorem run_nil (b : Bus) : b.run [] = ⟨b, [], none⟩ := by rw [run]

/-- The last step of a run. -/
theorem Step.run_last {b b' : Bus} {ts : List Task} {d : Deed} (h : Step b ts d b' []) :
    b.run ts = d.run b' := by
  rw [h.run_eq]
  cases hd : (d.run b').failure with
  | some cause => rw [Run.andThen_of_some hd]
  | none =>
    rw [Run.andThen_of_none hd, run_nil, ← hd]
    simp [Deed.run]

/-- Tasks are done in their order, those behind a fault not at all. -/
theorem run_append (b : Bus) (ts us : List Task) :
    b.run (ts ++ us) = (b.run ts).andThen fun c => c.run us := by
  induction b, ts using run_induction with
  | done b => rw [run_nil, Run.andThen_of_none rfl]; rfl
  | next b ts d b' ts' h ih =>
    rw [(h.append us).run_eq, h.run_eq, Run.andThen_assoc]
    cases hd : (d.run b').failure with
    | some cause => rw [Run.andThen_of_some hd, Run.andThen_of_some hd]
    | none =>
      have hfault : d.fault? = none := hd
      rw [Run.andThen_of_none hd, Run.andThen_of_none hd, if_pos hfault]
      simp only [Deed.run, ih]

/-- After what is in the log, this is the bus, and this is to be done. When nothing is left to be done,
something is done from outside. -/
inductive Reached (scripts : List (String × List BusAction)) : List Deed → Bus → List Task → Prop
  | silent : Reached scripts [] (.silent scripts) []
  | outside {log b} (a : BusAction) (h : Reached scripts log b []) : Reached scripts log b [.act a]
  | step {log b ts d b' ts'} (h : Reached scripts log b ts) (hs : Step b ts d b' ts') :
      Reached scripts (log ++ [d]) b' ts'

/-- The listeners that are registered in a channel after what is in the log, earliest first. -/
def registeredIn (c : Channel) (log : List Deed) : List String := log.foldl (Deed.change c) []

theorem registeredIn_snoc (c : Channel) (log : List Deed) (d : Deed) :
    registeredIn c (log ++ [d]) = d.change c (registeredIn c log) := by
  rw [registeredIn, List.foldl_append]
  rfl

/-- Of equally named listeners in one channel the earliest goes, and in the other channels none. -/
theorem listeners_erase (registrations : List Registration) (r : Registration) (c : Channel) :
    ((registrations.erase r).filter fun r' => r'.channel = c).map Registration.listener =
      if r.channel = c then
        ((registrations.filter fun r' => r'.channel = c).map Registration.listener).erase r.listener
      else (registrations.filter fun r' => r'.channel = c).map Registration.listener := by
  induction registrations with
  | nil => simp
  | cons r' rest ih =>
    by_cases heq : r' = r
    · subst heq
      by_cases hc : r'.channel = c <;> simp [hc]
    · rw [List.erase_cons_tail (by simpa using heq)]
      by_cases hc : r.channel = c
      · rw [if_pos hc] at ih ⊢
        by_cases hc' : r'.channel = c
        · have hl : r'.listener ≠ r.listener := fun hl => heq (by
            cases r'; cases r; simp_all)
          simp [hc', ih, hl, List.erase_cons_tail]
        · simp [hc', ih]
      · rw [if_neg hc] at ih ⊢
        by_cases hc' : r'.channel = c <;> simp [hc', ih]

theorem Step.listeners {b b' : Bus} {ts ts' : List Task} {d : Deed} (h : Step b ts d b' ts')
    (c : Channel) : b'.listeners c = d.change c (b.listeners c) := by
  cases h with
  | @register r =>
    by_cases hc : r.channel = c <;> simp [Bus.listeners, Deed.change, hc]
  | remove hr hmem => exact listeners_erase b.registrations _ c
  | call | notRegistered | noSuchHandle | emit | fail => rfl

namespace Reached

variable {scripts : List (String × List BusAction)} {log : List Deed} {b : Bus} {ts : List Task}

/-- Which listeners an emission finds is a matter of what was done before it. -/
theorem listeners (h : Reached scripts log b ts) (c : Channel) : b.listeners c = registeredIn c log := by
  induction h with
  | silent => rfl
  | outside a h ih => exact ih
  | step h hs ih => rw [registeredIn_snoc, ← ih, hs.listeners]

/-- A run goes through moments of one history, and its calls are those of the log. -/
theorem run {rest : List Task} (h : Reached scripts log b (ts ++ rest)) : ∃ deeds,
    Reached scripts (log ++ deeds) (b.run ts).bus (if (b.run ts).failure = none then rest else []) ∧
      deeds.flatMap Deed.notices = (b.run ts).calls := by
  induction b, ts using run_induction generalizing log with
  | done b => exact ⟨[], by simpa [run_nil] using h, by rw [run_nil]; rfl⟩
  | next b ts d b' ts' hs ih =>
    have hstep := h.step (hs.append rest)
    rw [hs.run_eq]
    cases hd : (d.run b').failure with
    | some cause =>
      have hfault : d.fault? = some cause := hd
      rw [Run.andThen_of_some hd]
      refine ⟨[d], ?_, by simp [Deed.run]⟩
      simpa [hfault, hd, Deed.run] using hstep
    | none =>
      have hfault : d.fault? = none := hd
      rw [if_pos hfault] at hstep
      obtain ⟨deeds, hreached, hcalls⟩ := ih hstep
      rw [Run.andThen_of_none hd]
      rw [List.append_assoc] at hreached
      exact ⟨d :: deeds, hreached, by simp [Deed.run, hcalls]⟩

end Reached

end Bus

end StyleLang
