import StyleLang.Proofs.Scope.Chain

/-!
# The calls of a pass

What a pass asks of its chain, in the order of asking. Scopes are entered and left in nested pairs, and
the calls replayed on the chain that the pass began with lead to the one it left. Both hold wherever the
pass ends, because a scope is left also behind a fault. So a pass never leaves a scope that is not there,
nor binds a name where there is none.
-/

namespace StyleLang

namespace Call

variable {α : Type}

/-- Scopes are entered and left in pairs, each within another pair or beside it; names are bound in
between. -/
inductive Nested : List (Call α) → Prop
  | nil : Nested []
  | bind (x : String) (v : α) {rest : List (Call α)} (h : Nested rest) : Nested (.bind x v :: rest)
  | block {inner rest : List (Call α)} (h : Nested inner) (h' : Nested rest) :
      Nested (.enter :: (inner ++ .leave :: rest))

theorem Nested.append {first second : List (Call α)} (h : Nested first) (h' : Nested second) :
    Nested (first ++ second) := by
  induction h with
  | nil => exact h'
  | bind x v h ih => exact .bind x v ih
  | @block inner rest h hrest _ ih =>
    rw [List.cons_append, List.append_assoc, List.cons_append]
    exact .block h ih

/-- The depth that calls lead to, beginning at the given depth. -/
def depth (calls : List (Call α)) (d : Nat) : Nat := calls.foldl depthAfter d

@[simp] theorem depth_nil (d : Nat) : depth ([] : List (Call α)) d = d := rfl

@[simp] theorem depth_cons (c : Call α) (calls : List (Call α)) (d : Nat) :
    depth (c :: calls) d = depth calls (c.depthAfter d) := rfl

theorem depth_append (first second : List (Call α)) (d : Nat) :
    depth (first ++ second) d = depth second (depth first d) := List.foldl_append

/-- Nested calls lead back to where they began. -/
theorem Nested.depth_eq {calls : List (Call α)} (h : Nested calls) (d : Nat) : depth calls d = d := by
  induction h generalizing d with
  | nil => rfl
  | bind x v h ih => exact ih d
  | block h h' ih ih' => rw [depth_cons, depth_append, ih, depth_cons, ih']; rfl

/-- Nested calls do not lead out of the scopes that they began in. -/
theorem Nested.le_depth {calls before : List (Call α)} (h : Nested calls) (hb : before <+: calls)
    (d : Nat) : d ≤ depth before d := by
  induction h generalizing before d with
  | nil =>
    obtain rfl := List.prefix_nil.mp hb
    exact Nat.le_refl d
  | bind x v h ih =>
    rcases List.prefix_cons_iff.mp hb with rfl | ⟨rest, rfl, hrest⟩
    · exact Nat.le_refl d
    · exact ih hrest d
  | @block inner rest h h' ih ih' =>
    rcases List.prefix_cons_iff.mp hb with rfl | ⟨part, rfl, hpart⟩
    · exact Nat.le_refl d
    rw [depth_cons]
    rcases List.prefix_or_prefix_of_prefix hpart (List.prefix_append inner _) with hinner | ⟨more, rfl⟩
    · exact Nat.le_trans (Nat.le_succ d) (ih hinner (d + 1))
    · rw [depth_append, h.depth_eq]
      rcases List.prefix_cons_iff.mp ((List.prefix_append_right_inj inner).mp hpart) with
        rfl | ⟨more, rfl, hmore⟩
      · exact Nat.le_succ d
      · exact ih' hmore d

def isEnter : Call α → Bool
  | enter => true
  | leave => false
  | bind _ _ => false

/-- The number of scopes that are entered. -/
def enters (calls : List (Call α)) : Nat := calls.countP isEnter

theorem enters_append (first second : List (Call α)) :
    enters (first ++ second) = enters first + enters second := List.countP_append

theorem enters_block (inner : List (Call α)) :
    enters (.enter :: (inner ++ [.leave])) = enters inner + 1 := by
  simp [enters, List.countP_cons, List.countP_append, isEnter]

theorem le_maxDepth (calls : List (Call α)) (d : Nat) : d ≤ maxDepth calls d := by
  cases calls with
  | nil => exact Nat.le_refl d
  | cons c calls => exact Nat.le_max_left d _

theorem maxDepth_append (first second : List (Call α)) (d : Nat) :
    maxDepth (first ++ second) d = max (maxDepth first d) (maxDepth second (depth first d)) := by
  induction first generalizing d with
  | nil => exact (Nat.max_eq_right (le_maxDepth second d)).symm
  | cons c first ih => rw [List.cons_append, maxDepth, ih, maxDepth, Nat.max_assoc, depth_cons]

/-- A scope is one deeper than what is around it, and what is in it may be deeper still. -/
theorem maxDepth_block {inner : List (Call α)} (h : Nested inner) (d : Nat) :
    maxDepth (.enter :: (inner ++ [.leave])) d = maxDepth inner (d + 1) := by
  have hle := le_maxDepth inner (d + 1)
  have hleave : maxDepth [(leave : Call α)] (d + 1) = d + 1 := by simp [maxDepth, depthAfter]
  rw [maxDepth, depthAfter, maxDepth_append, h.depth_eq, hleave]
  omega

end Call

namespace Chain

variable {α : Type}

/-- What a call makes of a chain. -/
def after (c : Chain α) : Call α → Except ScopeFault (Chain α)
  | .enter => .ok c.enter
  | .leave => c.leave
  | .bind x v => c.bind x v

/-- The chain that calls lead to, unless one of them is a fault. -/
def replay (c : Chain α) : List (Call α) → Except ScopeFault (Chain α)
  | [] => .ok c
  | call :: calls =>
    match c.after call with
    | .error f => .error f
    | .ok d => d.replay calls

theorem replay_append {c d : Chain α} {first : List (Call α)} (h : c.replay first = .ok d)
    (second : List (Call α)) : c.replay (first ++ second) = d.replay second := by
  induction first generalizing c with
  | nil =>
    cases h
    rfl
  | cons call calls ih =>
    simp only [List.cons_append, replay] at h ⊢
    cases ha : c.after call with
    | error f => simp [ha] at h
    | ok e =>
      rw [ha] at h
      exact ih h

end Chain

namespace Passage

open Call

variable {α τ σ υ β γ : Type} {c : Chain α} {r : Passage α τ β}

/-- Beginning with a chain, a passage made nested calls that lead to the chain it left, and no fault of a
scope came up. -/
structure Tidy (c : Chain α) (r : Passage α τ β) : Prop where
  nested : Nested r.calls
  replay : c.replay r.calls = .ok r.chain
  noFault : ∀ f, r.result ≠ .error (.scope f)

namespace Tidy

theorem stop (tree : τ) (c : Chain α) {f : Fault} (hf : ∀ cause, f ≠ .scope cause) :
    Tidy c (Passage.stop tree c f : Passage α τ β) :=
  ⟨.nil, rfl, fun cause h => hf cause (Except.error.inj h)⟩

theorem done (tree : τ) (c : Chain α) (b : β) : Tidy c (Passage.done tree c b) := ⟨.nil, rfl, nofun⟩

/-- In a scope a name can be bound. -/
theorem bind (tree : τ) (h : c.scopes ≠ []) (x : String) (v : α) : Tidy c (Passage.bind tree c x v) := by
  obtain ⟨d, hd⟩ := Chain.bind_ok h x v
  rw [chain_bind hd]
  refine ⟨.bind x v .nil, ?_, nofun⟩
  simp only [Chain.replay, Chain.after, hd]

theorem mapTree (h : Tidy c r) (f : τ → σ) : Tidy c (r.mapTree f) := ⟨h.nested, h.replay, h.noFault⟩

theorem mapResult (h : Tidy c r) (f : β → γ) : Tidy c (r.mapResult f) := by
  refine ⟨h.nested, h.replay, fun cause hr => ?_⟩
  have hnot := h.noFault cause
  simp only [Passage.mapResult] at hr
  cases hres : r.result <;> simp_all [Except.map]

theorem andThen {join : τ → σ → υ} {rest : σ} {second : Chain α → β → Passage α σ γ} (h : Tidy c r)
    (h' : ∀ b, r.result = .ok b → Tidy r.chain (second r.chain b)) :
    Tidy c (Passage.andThen join rest r second) := by
  cases hr : r.result with
  | error f =>
    rw [andThen_of_error hr]
    refine ⟨h.nested, h.replay, fun cause hf => h.noFault cause ?_⟩
    cases hf
    exact hr
  | ok b =>
    rw [andThen_of_ok hr]
    have hb := h' b hr
    exact ⟨h.nested.append hb.nested, by rw [Chain.replay_append h.replay, hb.replay], hb.noFault⟩

/-- A block in a scope of its own, which is left wherever the block ends. -/
theorem inScope {block : Chain α → Passage α τ β} (h : Tidy c.enter (block c.enter))
    (hsame : c.enter.SameBelow (block c.enter).chain) : Tidy c (Passage.inScope c block) := by
  rw [inScope_eq hsame]
  refine ⟨.block h.nested .nil, ?_, h.noFault⟩
  have hleave : (block c.enter).chain.replay [.leave] = .ok c := by
    simp only [Chain.replay, Chain.after, Chain.leave_of_sameBelow hsame]
  simp only [Chain.replay, Chain.after]
  rw [Chain.replay_append h.replay, hleave]

end Tidy

/-- A pass on a chain of its own: the chain is left as empty as it was made, one scope is around all the
calls, every name is bound in a scope, and in the end no scope is open. Nothing that a scope does not allow
was asked for. -/
structure Balanced (mode : ScopeMode) (r : Passage α τ β) : Prop where
  chain : r.chain = .empty mode
  replay : (Chain.empty mode).replay r.calls = .ok r.chain
  nested : ∃ inner, r.calls = .enter :: (inner ++ [.leave]) ∧ Nested inner
  bound : ∀ before x v, before ++ [.bind x v] <+: r.calls → 1 ≤ depth before 0
  closed : depth r.calls 0 = 0
  noFault : ∀ f, r.result ≠ .error (.scope f)

theorem balanced_inScope (mode : ScopeMode) (block : Chain α → Passage α τ β)
    (h : Tidy (Chain.empty mode).enter (block (Chain.empty mode).enter))
    (hsame : (Chain.empty mode).enter.SameBelow (block (Chain.empty mode).enter).chain) :
    Balanced mode (inScope (Chain.empty mode) block) := by
  have htidy := h.inScope hsame
  have heq := inScope_eq hsame
  have hnested : (inScope (Chain.empty mode) block).calls =
      .enter :: ((block (Chain.empty mode).enter).calls ++ [.leave]) := by rw [heq]
  refine ⟨by rw [heq], htidy.replay, ⟨_, hnested, h.nested⟩, fun before x v hb => ?_, htidy.nested.depth_eq 0,
    htidy.noFault⟩
  rw [hnested] at hb
  rcases List.prefix_cons_iff.mp hb with hb | ⟨part, hpart, hb⟩
  · simp at hb
  rcases List.prefix_concat_iff.mp hb with hb | hb
  · rw [hb, ← List.cons_append] at hpart
    cases List.append_inj_right' hpart rfl
  · cases before with
    | nil =>
      obtain ⟨hfirst, -⟩ := List.cons_eq_cons.mp hpart
      cases hfirst
    | cons call before =>
      obtain ⟨rfl, rfl⟩ := List.cons_eq_cons.mp hpart
      exact h.nested.le_depth ((List.prefix_append before _).trans hb) 1

theorem Balanced.mapTree {mode : ScopeMode} (h : Balanced mode r) (f : τ → σ) :
    Balanced mode (r.mapTree f) :=
  ⟨h.chain, h.replay, h.nested, h.bound, h.closed, h.noFault⟩

end Passage

end StyleLang
