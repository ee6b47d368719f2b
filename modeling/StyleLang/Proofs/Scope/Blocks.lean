import StyleLang.Proofs.Scope.Chain

/-!
# Blocks that fail

A program over a chain binds names, asks for them, and runs blocks in scopes of their own; it may fail at
any point, and what it does next may depend on what it was answered. A block gives back the chain that was
there before it, however it ends and however deep inside it a failure began. What a program comes to is
said without any chain, so that neither the mode nor the scopes show in it. Programs that leave a scope
which they did not enter are not among these.
-/

namespace StyleLang

/-- What may be done with a chain inside a block. A failure ends every block that it happens in. -/
inductive ScopeProgram (α ε β : Type) where
  | done (value : β)
  | fail (error : ε)
  | bind (name : String) (payload : α) (next : ScopeProgram α ε β)
  | resolve (name : String) (next : Option α → ScopeProgram α ε β)
  /-- Runs a block in a scope of its own and goes on with what it came to, unless it failed. -/
  | within (block : ScopeProgram α ε β) (next : β → ScopeProgram α ε β)

namespace ScopeProgram

variable {α ε β : Type}

/-- Why a program did not end normally. -/
inductive Failure (ε : Type) where
  /-- A scope could not be left or bound in. -/
  | scope (cause : ScopeFault)
  | own (error : ε)

/-- What becomes of a block whose scope cannot be left. -/
def notLeft (cause : ScopeFault) : Except (Failure ε) β → Except (Failure ε) β :=
  fun _ => .error (.scope cause)

/-- The chain after the program, and how the program ended. -/
def run (c : Chain α) : ScopeProgram α ε β → Chain α × Except (Failure ε) β
  | done b => (c, .ok b)
  | fail e => (c, .error (.own e))
  | bind x v next =>
    match c.bind x v with
    | .ok c' => run c' next
    | .error f => (c, .error (.scope f))
  | resolve x next => run c (next (c.resolve x))
  | within block next =>
    let ended := c.within notLeft fun opened => run opened block
    match ended.2 with
    | .ok b => run ended.1 (next b)
    | .error f => (ended.1, .error f)

/-- What a program comes to if names stand for what `names` says: a binding counts up to the end of the
block that it is made in. -/
def outcome (names : String → Option α) : ScopeProgram α ε β → Except ε β
  | done b => .ok b
  | fail e => .error e
  | bind x v next => outcome (fun y => if y = x then some v else names y) next
  | resolve x next => outcome names (next (names x))
  | within block next =>
    match outcome names block with
    | .ok b => outcome names (next b)
    | .error e => .error e

/-- The program ran to the given end and kept to the innermost scope. -/
structure Ran (c : Chain α) (p : ScopeProgram α ε β) (ended : Except ε β) : Prop where
  sameBelow : c.SameBelow (p.run c).1
  result : (p.run c).2 = ended.mapError .own

/-- A block that keeps to its own scope can be left, and leaves the chain as it was. -/
theorem Ran.within {c : Chain α} {p : ScopeProgram α ε β} {ended : Except ε β}
    (h : Ran c.enter p ended) :
    c.within notLeft (fun opened => p.run opened) = (c, ended.mapError .own) := by
  simp only [Chain.within, Chain.leave_of_sameBelow h.sameBelow, h.result]

/-- In a scope, every program runs to the end that is said of it without a chain. -/
theorem ran_outcome {c : Chain α} (hc : c.scopes ≠ []) (p : ScopeProgram α ε β) :
    Ran c p (p.outcome c.resolve) := by
  induction p generalizing c with
  | done b => exact ⟨.refl c, rfl⟩
  | fail e => exact ⟨.refl c, rfl⟩
  | bind x v next ih =>
    obtain ⟨d, hd⟩ := Chain.bind_ok hc x v
    have hsame := Chain.sameBelow_bind hd
    have hnext := ih (hsame.ne_nil hc)
    have hnames : d.resolve = fun y => if y = x then some v else c.resolve y :=
      funext fun y => Chain.resolve_bind hd y
    rw [hnames] at hnext
    constructor
    · simp only [run, hd]
      exact hsame.trans hnext.sameBelow
    · simp only [run, hd]
      exact hnext.result
  | resolve x next ih => exact ⟨(ih _ hc).sameBelow, (ih _ hc).result⟩
  | within block next ihblock ihnext =>
    have hblock := ihblock c.enter_ne_nil
    have hnames : c.enter.resolve = c.resolve := funext fun y => c.resolve_enter y
    rw [hnames] at hblock
    -- The rest runs on the chain that was there before the block, or is not come to.
    cases hb : block.outcome c.resolve with
    | ok b =>
      rw [hb] at hblock
      have hnext := ihnext b hc
      constructor
      · simp only [run, hblock.within, mapError_ok]
        exact hnext.sameBelow
      · simp only [run, hblock.within, outcome, hb, mapError_ok]
        exact hnext.result
    | error e =>
      rw [hb] at hblock
      constructor
      · simp only [run, hblock.within, mapError_error]
        exact .refl c
      · simp only [run, hblock.within, outcome, hb, mapError_error]

/-- After a block the chain is the one before it, all scopes with all their bindings, in either mode and
whether the block failed or not. The block ends as its program does: with its value, or with the failure
that the program itself raised, however many blocks it passed through; that a scope cannot be bound in or
left is never the reason. -/
theorem within_restores (c : Chain α) (p : ScopeProgram α ε β) :
    let ended := c.within notLeft fun opened => p.run opened
    ended.1 = c ∧ ended.2 = (p.run c.enter).2 ∧ (∀ f, ended.2 ≠ .error (.scope f)) ∧
      ended.2 = (p.outcome c.resolve).mapError .own := by
  intro ended
  have hran := ran_outcome c.enter_ne_nil p
  have hnames : c.enter.resolve = c.resolve := funext fun y => c.resolve_enter y
  rw [hnames] at hran
  have hended : ended = (c, (p.outcome c.resolve).mapError .own) := hran.within
  rw [hended]
  refine ⟨rfl, hran.result.symm, fun f hf => ?_, rfl⟩
  cases h : p.outcome c.resolve <;> rw [h] at hf <;> cases hf

/-- A name bound outside is bound anew two blocks down, where the program fails with what it then finds. -/
example (mode : ScopeMode) :
    let p : ScopeProgram Nat (Option Nat) Unit := .within
      (.bind "x" 2 (.within (.bind "x" 3 (.resolve "x" .fail)) .done)) .done
    let c : Chain Nat := ⟨mode, [[("x", 1)], [("y", 0)]]⟩
    c.within notLeft (fun opened => p.run opened) = (c, .error (.own (some 3))) := by
  cases mode <;> cbv

end ScopeProgram

end StyleLang
