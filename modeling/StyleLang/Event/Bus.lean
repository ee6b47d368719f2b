import StyleLang.Event

/-!
# The event bus

A bus calls listeners for events, in the order of their registration: first those registered for all
events, then those registered for the class of the event. Which ones an emission calls is settled
when it begins. A listener that is called may itself act on the bus; what it does on its first call,
its second, and so on, is a script given in advance, and after its last script it does nothing. A
fault ends everything that is under way and undoes nothing.

A handle is returned for every registration. It does not name that registration: used, it removes the
earliest one of the same listener in the same channel.
-/

namespace StyleLang

/-- What a listener is registered for. -/
inductive Channel where
  | all
  | only (kind : EventClass)
  deriving DecidableEq

structure Registration where
  channel : Channel
  listener : String
  deriving DecidableEq

inductive BusAction where
  | register (registration : Registration)
  | useHandle (index : Nat)
  | emit (event : Event)
  | fail (message : String)
  deriving DecidableEq

inductive BusFault where
  | notRegistered
  | noSuchHandle
  | raised (message : String)
  deriving DecidableEq

def BusFault.message : BusFault → String
  | notRegistered => "list.remove(x): x not in list"
  | noSuchHandle => "list index out of range"
  | raised message => message

/-- A call of a listener. -/
structure Notice where
  listener : String
  event : Event
  deriving DecidableEq

structure Bus where
  /-- What is registered, earliest first. -/
  registrations : List Registration
  /-- The registrations for which handles were returned, in order. -/
  handles : List Registration
  /-- What listeners will do; of several scripts of one listener the first is for its next call. -/
  scripts : List (String × List BusAction)
  deriving DecidableEq

namespace Bus

/-- The listeners registered in a channel, in order. -/
def listeners (b : Bus) (c : Channel) : List String :=
  (b.registrations.filter fun r => r.channel = c).map Registration.listener

/-- The calls that an emission begun now makes. -/
def notices (b : Bus) (e : Event) : List Notice :=
  (b.listeners .all ++ b.listeners (.only e.kind)).map fun l => ⟨l, e⟩

/-- The next script of a listener, and the scripts that are left. -/
def takeScript (listener : String) :
    List (String × List BusAction) → List BusAction × List (String × List BusAction)
  | [] => ([], [])
  | (l, script) :: rest =>
    if l = listener then (script, rest)
    else
      let taken := takeScript listener rest
      (taken.1, (l, script) :: taken.2)

/-- Something that is still to be done. -/
inductive Task where
  | call (notice : Notice)
  | act (action : BusAction)

/-- How a run on the bus went. -/
structure Run where
  bus : Bus
  calls : List Notice
  failure : Option BusFault

/-- The actions among the tasks. -/
def pendingActs : List Task → Nat
  | [] => 0
  | .call _ :: rest => pendingActs rest
  | .act _ :: rest => 1 + pendingActs rest

/-- The actions in scripts, and the scripts themselves. -/
def scripted (scripts : List (String × List BusAction)) : Nat :=
  match scripts with
  | [] => 0
  | (_, script) :: rest => 1 + script.length + scripted rest

theorem pendingActs_append (ts us : List Task) :
    pendingActs (ts ++ us) = pendingActs ts + pendingActs us := by
  induction ts with
  | nil => simp [pendingActs]
  | cons t ts ih => cases t <;> simp [pendingActs, ih, Nat.add_assoc]

theorem pendingActs_calls (ns : List Notice) : pendingActs (ns.map Task.call) = 0 := by
  induction ns with
  | nil => rfl
  | cons n ns ih => simpa [pendingActs] using ih

theorem pendingActs_acts (as : List BusAction) : pendingActs (as.map Task.act) = as.length := by
  induction as with
  | nil => rfl
  | cons a as ih => simp [pendingActs, ih, Nat.add_comm]

/-- Taking a script away leaves less to do, unless there is none. -/
theorem takeScript_lt (listener : String) (scripts : List (String × List BusAction)) :
    (takeScript listener scripts).1.length + scripted (takeScript listener scripts).2
        < scripted scripts ∨
      takeScript listener scripts = ([], scripts) := by
  induction scripts with
  | nil => exact .inr rfl
  | cons s rest ih =>
    obtain ⟨l, script⟩ := s
    simp only [takeScript]
    split
    · left
      simp only [scripted]
      omega
    · rcases ih with h | h
      · left
        simp only [scripted]
        omega
      · right
        simp [h]

/-- Does what is to be done, first task first. -/
def run (b : Bus) (tasks : List Task) : Run :=
  match tasks with
  | [] => ⟨b, [], none⟩
  | .call n :: rest =>
    let taken := takeScript n.listener b.scripts
    let after := run { b with scripts := taken.2 } (taken.1.map .act ++ rest)
    { after with calls := n :: after.calls }
  | .act (.register r) :: rest =>
    run { b with registrations := b.registrations ++ [r], handles := b.handles ++ [r] } rest
  | .act (.useHandle i) :: rest =>
    match b.handles[i]? with
    | none => ⟨b, [], some .noSuchHandle⟩
    | some r =>
      if r ∈ b.registrations then run { b with registrations := b.registrations.erase r } rest
      else ⟨b, [], some .notRegistered⟩
  | .act (.emit e) :: rest => run b ((b.notices e).map .call ++ rest)
  | .act (.fail m) :: _ => ⟨b, [], some (.raised m)⟩
termination_by (scripted b.scripts + pendingActs tasks, tasks.length)
decreasing_by
  · simp only [pendingActs_append, pendingActs_acts, pendingActs, List.length_append,
      List.length_map, List.length_cons]
    rcases takeScript_lt n.listener b.scripts with h | h
    · exact Prod.Lex.left _ _ (by omega)
    · rw [h]
      simp only [List.length_nil, Nat.zero_add]
      exact Prod.Lex.right _ (by omega)
  · exact Prod.Lex.left _ _ (by simp only [pendingActs]; omega)
  · exact Prod.Lex.left _ _ (by simp only [pendingActs]; omega)
  · refine Prod.Lex.left _ _ ?_
    simp only [pendingActs_append, pendingActs_calls, pendingActs]
    omega

/-- A bus on which nothing is registered. -/
def silent (scripts : List (String × List BusAction)) : Bus := ⟨[], [], scripts⟩

/-- Does one action from outside. -/
def perform (b : Bus) (a : BusAction) : Run := b.run [.act a]

end Bus

end StyleLang
