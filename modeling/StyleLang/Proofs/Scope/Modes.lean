import StyleLang.Proofs.Scope.Chain
import StyleLang.Scope.Script

/-!
# Lexical chains and snapshot chains answer alike

The scopes of a snapshot chain are the lexical scopes flattened: each answers a name as the lexical
scopes do from its place outwards. Every action keeps that, also one that fails, and is answered alike by
both chains. What is bound does not matter; only the text by which a chain describes itself tells the
modes apart.
-/

namespace StyleLang

variable {α : Type}

namespace Chain

/-- Of two stacks, each scope of the second answers like the scopes of the first from the same place
outwards. -/
inductive Flattens : List (Scope α) → List (Scope α) → Prop
  | nil : Flattens [] []
  | cons {top top' : Scope α} {rest rest' : List (Scope α)}
      (htop : ∀ x, (top :: rest).findSome? (fun scope => scope.lookup x) = top'.lookup x)
      (hrest : Flattens rest rest') : Flattens (top :: rest) (top' :: rest')

/-- The snapshot chain `d` is the flattening of the lexical chain `c`. -/
structure Mirrors (c d : Chain α) : Prop where
  lexical : c.mode = .lexical
  snapshot : d.mode = .snapshot
  flattens : Flattens c.scopes d.scopes

theorem mirrors_empty : (Chain.empty .lexical : Chain α).Mirrors (.empty .snapshot) :=
  ⟨rfl, rfl, .nil⟩

theorem isBound_eq_isSome (c : Chain α) (x : String) : c.isBound x = (c.resolve x).isSome := by
  unfold isBound resolve
  induction c.visible with
  | nil => rfl
  | cons scope scopes ih =>
    rw [List.any_cons, List.findSome?_cons, ih]
    cases scope.lookup x <;> rfl

section

variable {c d : Chain α}

theorem Mirrors.depth_eq (h : c.Mirrors d) : c.depth = d.depth := by
  have hlength : ∀ {s t : List (Scope α)}, Flattens s t → s.length = t.length := by
    intro s t hst
    induction hst with
    | nil => rfl
    | cons _ _ ih => simp [ih]
  exact hlength h.flattens

theorem Mirrors.resolve_eq (h : c.Mirrors d) (x : String) : c.resolve x = d.resolve x := by
  obtain ⟨mode, scopes⟩ := c
  obtain ⟨mode', scopes'⟩ := d
  obtain ⟨rfl, rfl, hflat⟩ := h
  cases hflat with
  | nil => rfl
  | @cons top top' rest rest' htop hrest =>
    calc
      resolve ⟨.lexical, top :: rest⟩ x = (top :: rest).findSome? (fun scope => scope.lookup x) := rfl
      _ = top'.lookup x := htop x
      _ = resolve ⟨.snapshot, top' :: rest'⟩ x := by simp [resolve, visible]

theorem Mirrors.isBound_eq (h : c.Mirrors d) (x : String) : c.isBound x = d.isBound x := by
  rw [isBound_eq_isSome, isBound_eq_isSome, h.resolve_eq]

/-- An empty scope is looked through, and a copy answers like the scope it was copied from. -/
theorem Mirrors.enter (h : c.Mirrors d) : c.enter.Mirrors d.enter := by
  obtain ⟨mode, scopes⟩ := c
  obtain ⟨mode', scopes'⟩ := d
  obtain ⟨rfl, rfl, hflat⟩ := h
  refine ⟨rfl, rfl, .cons (fun x => ?_) hflat⟩
  cases hflat with
  | nil => rfl
  | cons htop hrest => exact htop x

/-- Both chains can be left, or neither. -/
theorem Mirrors.leave (h : c.Mirrors d) :
    (∃ c' d', c.leave = .ok c' ∧ d.leave = .ok d' ∧ c'.Mirrors d') ∨
      (c.leave = .error .nothingToLeave ∧ d.leave = .error .nothingToLeave) := by
  obtain ⟨mode, scopes⟩ := c
  obtain ⟨mode', scopes'⟩ := d
  obtain ⟨rfl, rfl, hflat⟩ := h
  cases hflat with
  | nil => exact Or.inr ⟨rfl, rfl⟩
  | cons htop hrest => exact Or.inl ⟨_, _, rfl, rfl, rfl, rfl, hrest⟩

/-- In both chains a name can be bound, or in neither. -/
theorem Mirrors.bind (h : c.Mirrors d) (x : String) (v : α) :
    (∃ c' d', c.bind x v = .ok c' ∧ d.bind x v = .ok d' ∧ c'.Mirrors d') ∨
      (c.bind x v = .error (.nowhereToBind x) ∧ d.bind x v = .error (.nowhereToBind x)) := by
  obtain ⟨mode, scopes⟩ := c
  obtain ⟨mode', scopes'⟩ := d
  obtain ⟨rfl, rfl, hflat⟩ := h
  cases hflat with
  | nil => exact Or.inr ⟨rfl, rfl⟩
  | @cons top top' rest rest' htop hrest =>
    refine Or.inl ⟨_, _, rfl, rfl, rfl, rfl, .cons (fun y => ?_) hrest⟩
    have htop := htop y
    rw [List.findSome?_cons] at htop ⊢
    by_cases hy : y = x
    · subst hy
      simp
    · have hb : (y == x) = false := by simpa using hy
      rw [List.lookup_cons, List.lookup_cons, hb]
      exact htop

end

end Chain

namespace ScopeAction

mutual

/-- Somewhere in the action a chain is asked to describe itself. -/
def asksMode : ScopeAction α → Bool
  | enter => false
  | leave => false
  | bind _ _ => false
  | resolve _ => false
  | isBound _ => false
  | describe => true
  | within actions _ => anyAsksMode actions

def anyAsksMode : List (ScopeAction α) → Bool
  | [] => false
  | a :: rest => a.asksMode || anyAsksMode rest

end

mutual

/-- One action: both chains answer alike and go on mirroring each other. -/
theorem run_mirrors {c d : Chain α} (h : c.Mirrors d) {a : ScopeAction α} (ha : a.asksMode = false) :
    (run c a).2 = (run d a).2 ∧ (run c a).1.Mirrors (run d a).1 := by
  cases a with
  | enter => exact ⟨rfl, h.enter⟩
  | leave =>
    rcases h.leave with ⟨c', d', hc, hd, h'⟩ | ⟨hc, hd⟩
    · simp only [run, hc, hd, update]
      exact ⟨trivial, h'⟩
    · simp only [run, hc, hd, update]
      exact ⟨trivial, h⟩
  | bind x v =>
    rcases h.bind x v with ⟨c', d', hc, hd, h'⟩ | ⟨hc, hd⟩
    · simp only [run, hc, hd, update]
      exact ⟨trivial, h'⟩
    · simp only [run, hc, hd, update]
      exact ⟨trivial, h⟩
  | resolve x =>
    simp only [run, h.resolve_eq]
    exact ⟨trivial, h⟩
  | isBound x =>
    simp only [run, h.isBound_eq]
    exact ⟨trivial, h⟩
  | describe => simp [asksMode] at ha
  | within actions fails =>
    obtain ⟨hanswers, hinner⟩ := runAll_mirrors h.enter ha
    -- The block may have left more scopes than it entered, and then its own cannot be left.
    rcases hinner.leave with ⟨c', d', hc, hd, h'⟩ | ⟨hc, hd⟩
    · simp only [run, Chain.within, hc, hd, hanswers]
      exact ⟨trivial, h'⟩
    · simp only [run, Chain.within, hc, hd, hanswers]
      exact ⟨trivial, hinner⟩

theorem runAll_mirrors {c d : Chain α} (h : c.Mirrors d) {actions : List (ScopeAction α)}
    (ha : anyAsksMode actions = false) :
    (runAll c actions).2 = (runAll d actions).2 ∧
      (runAll c actions).1.Mirrors (runAll d actions).1 := by
  cases actions with
  | nil => exact ⟨rfl, h⟩
  | cons a rest =>
    rw [anyAsksMode, Bool.or_eq_false_iff] at ha
    obtain ⟨hanswer, hnext⟩ := run_mirrors h ha.1
    obtain ⟨hanswers, hend⟩ := runAll_mirrors hnext ha.2
    simp only [runAll, hanswer, hanswers, hnext.depth_eq]
    exact ⟨trivial, hend⟩

end

/-- An action that is answered with a fault has changed nothing. -/
theorem run_of_fault {c : Chain α} {a : ScopeAction α} {f : ScopeFault}
    (h : (run c a).2 = .fault f) : (run c a).1 = c := by
  have hupdate : ∀ r : Except ScopeFault (Chain α), (update c r).2 = .fault f → (update c r).1 = c := by
    intro r hr
    cases r with
    | ok c' => cases hr
    | error g => rfl
  cases a with
  | enter => cases h
  | leave => exact hupdate _ h
  | bind x v => exact hupdate _ h
  | resolve | isBound | describe => rfl
  | within actions fails => simp [run] at h

/-- Any script that does not ask for the mode is answered alike by a lexical and by a snapshot chain:
the same values, the same faults at the same actions, the same depth after each of them. In either mode
a fault changes nothing. -/
theorem modes_agree (script : List (ScopeAction α)) (h : anyAsksMode script = false) :
    (runAll (.empty .lexical) script).2 = (runAll (.empty .snapshot) script).2 ∧
      ∀ mode (before : List (ScopeAction α)) a f,
        (run (runAll (.empty mode) before).1 a).2 = .fault f →
          (run (runAll (.empty mode) before).1 a).1 = (runAll (.empty mode) before).1 :=
  ⟨(runAll_mirrors Chain.mirrors_empty h).1, fun _ _ _ _ hf => run_of_fault hf⟩

/-- A name that is bound to nothing hides the binding around it, in both modes; a scope too many cannot
be left. -/
theorem modes_agree_hidden :
    let script : List (ScopeAction (Option Nat)) :=
      [.enter, .bind "x" (some 1), .enter, .bind "x" none, .resolve "x", .leave, .resolve "x", .leave,
        .leave, .bind "x" none]
    anyAsksMode script = false ∧ (runAll (.empty .snapshot) script).2 =
      [(.done, 1), (.done, 1), (.done, 2), (.done, 2), (.value (some none), 2), (.done, 1),
        (.value (some (some 1)), 1), (.done, 0), (.fault .nothingToLeave, 0),
        (.fault (.nowhereToBind "x"), 0)] := by
  intro script
  exact ⟨rfl, (modes_agree script rfl).1.symm.trans rfl⟩

end ScopeAction

end StyleLang
