import StyleLang.Proofs.Scope.Chain
import StyleLang.Proofs.Typing.Lexical

/-!
# Agreement of chains and positions

A chain agrees with a position when it answers every name with what belongs to the last assignment that
counts there, and with nothing if none counts. What belongs to an assignment is left open: its type, or
its value. Stepping into a block and stepping past a member keep agreement.
-/

namespace StyleLang

open Position

variable {α : Type}

/-- The chain answers at `p` what the scopes by position say; `R` relates the position of an expression
to what belongs to it. -/
def Chain.AgreesAt (R : Position → α → Prop) (root : Node) (p : Position) (c : Chain α) : Prop :=
  ∀ x, match c.resolve x with
    | none => ∀ q, ¬ root.Visible x q p
    | some v => ∃ q, root.LastVisible x q p ∧ R (q ++ [0]) v

namespace Chain.AgreesAt

variable {R : Position → α → Prop} {root : Node} {p : Position} {c : Chain α}

theorem unbound (h : c.AgreesAt R root p) {x : String} (hx : c.resolve x = none) (q : Position) :
    ¬ root.Visible x q p := by
  have := h x
  rw [hx] at this
  exact this q

theorem bound (h : c.AgreesAt R root p) {x : String} {v : α} (hx : c.resolve x = some v) :
    ∃ q, root.LastVisible x q p ∧ R (q ++ [0]) v := by
  have := h x
  rw [hx] at this
  exact this

/-- Agreement is about what counts at a position and what the chain answers, and no more. -/
theorem congr {p' : Position} {c' : Chain α} (h : c.AgreesAt R root p)
    (hv : ∀ x q, root.Visible x q p' ↔ root.Visible x q p)
    (hr : ∀ x, c'.resolve x = c.resolve x) : c'.AgreesAt R root p' := by
  intro x
  rw [hr]
  cases hx : c.resolve x with
  | none =>
    intro q hq
    exact h.unbound hx q ((hv x q).mp hq)
  | some v =>
    obtain ⟨q, hq, hR⟩ := h.bound hx
    refine ⟨q, ⟨(hv x q).mpr hq.visible, ?_⟩, hR⟩
    intro q' hq'
    exact hq.last q' ((hv x q').mp hq')

/-- A child that is no member of a block is come to with its parent's chain. -/
theorem child (h : c.AgreesAt R root p) {k : Nat} (hk : ¬ root.DirectMember p k) :
    c.AgreesAt R root (p ++ [k]) :=
  h.congr (Node.visible_child fun _ _ _ => hk) fun _ => rfl

/-- The first member of a block is come to with a scope entered. -/
theorem first {n : Node} (h : c.AgreesAt R root p) (hn : root.at? p = some n) {first : Nat}
    {members : List Node} (hb : n.block? = some (first, members)) :
    c.enter.AgreesAt R root (p ++ [first]) := by
  refine h.congr (Node.visible_child ?_) c.resolve_enter
  rintro i hlt ⟨n', first', members', hn', hb', hle, -⟩ -
  obtain rfl := Option.some.inj (hn.symm.trans hn')
  rw [hb] at hb'
  cases hb'
  omega

/-- Past a member that is no assignment, the chain is the same. -/
theorem next_other {n : Node} {k : Nat} (h : c.AgreesAt R root (p ++ [k]))
    (hn : root.at? (p ++ [k]) = some n) (hne : ∀ m x e, n ≠ .assignment m x e)
    (hk : root.DirectMember p k) (hk' : root.DirectMember p (k + 1)) :
    c.AgreesAt R root (p ++ [k + 1]) := by
  refine h.congr (fun x q => ?_) fun _ => rfl
  rw [Node.visible_next hk hk']
  constructor
  · intro h
    rcases h with hv | ⟨rfl, m, e, ha⟩
    · exact hv
    · exact absurd (Option.some.inj (hn.symm.trans ha)) (hne m x e)
  · exact Or.inl

/-- Past an assignment, it is the last that counts for its name, and nothing else is different. -/
theorem next_assignment {m : Mark} {y : String} {e : Node} {k : Nat} {v : α} {c' : Chain α}
    (h : c.AgreesAt R root (p ++ [k])) (hn : root.at? (p ++ [k]) = some (.assignment m y e))
    (hk : root.DirectMember p k) (hk' : root.DirectMember p (k + 1)) (hR : R (p ++ [k] ++ [0]) v)
    (hb : c.bind y v = .ok c') : c'.AgreesAt R root (p ++ [k + 1]) := by
  have hassigns : root.Assigns y (p ++ [k]) := ⟨m, e, hn⟩
  have hkey : ∀ x, root.Assigns x (p ++ [k]) → x = y := by
    rintro x ⟨m', e', ha⟩
    cases hn.symm.trans ha
    rfl
  intro x
  rw [Chain.resolve_bind hb x]
  by_cases hx : x = y
  · subst hx
    rw [if_pos rfl]
    refine ⟨p ++ [k], ⟨(Node.visible_next hk hk' x _).mpr (Or.inr ⟨rfl, hassigns⟩), ?_⟩, hR⟩
    intro q' hq'
    rcases (Node.visible_next hk hk' x q').mp hq' with hv | ⟨rfl, -⟩
    · exact Or.inr hv.endsBefore
    · exact Or.inl rfl
  · rw [if_neg hx]
    have hsame : ∀ q, root.Visible x q (p ++ [k + 1]) ↔ root.Visible x q (p ++ [k]) := by
      intro q
      rw [Node.visible_next hk hk']
      constructor
      · intro h
        rcases h with hv | ⟨rfl, ha⟩
        · exact hv
        · exact absurd (hkey x ha) hx
      · exact Or.inl
    cases hr : c.resolve x with
    | none =>
      intro q hq
      exact h.unbound hr q ((hsame q).mp hq)
    | some u =>
      obtain ⟨q, hq, hu⟩ := h.bound hr
      refine ⟨q, ⟨(hsame q).mpr hq.visible, ?_⟩, hu⟩
      intro q' hq'
      exact hq.last q' ((hsame q').mp hq')

/-- Nothing counts at the root. -/
theorem at_root (R : Position → α → Prop) (root : Node) (mode : ScopeMode) :
    (Chain.empty mode).AgreesAt R root [] := by
  intro x
  rw [Chain.resolve_empty]
  rintro q ⟨-, -, b, k, -, -, j, r, hr, -⟩
  cases b <;> cases hr

end Chain.AgreesAt

end StyleLang
