import Mathlib.Logic.Function.Basic
import StyleLang.Proofs.Scope.Chain
import StyleLang.Proofs.Tree.Renaming

/-!
# Chains and passages with new names

If different names stay different, a chain with new names answers to a new name what it answered to the old
one, whatever has been bound, overwritten or hidden on it. Each way of putting passages together keeps to
the new names, so a pass does if its single steps do. Names that no scope binds are not renamed by
anything here.
-/

namespace StyleLang

variable {α β γ τ σ υ : Type} (r : String → String)

def Scope.renamed (s : Scope α) : Scope α := s.map fun b => (r b.1, b.2)

def Chain.renamed (c : Chain α) : Chain α := { c with scopes := c.scopes.map (Scope.renamed r) }

def Call.renamed : Call α → Call α
  | enter => enter
  | leave => leave
  | bind x payload => bind (r x) payload

section

variable {r}

theorem Scope.lookup_renamed (hr : Function.Injective r) (s : Scope α) (x : String) :
    (s.renamed r).lookup (r x) = s.lookup x := by
  induction s with
  | nil => rfl
  | cons b s ih =>
    obtain ⟨y, payload⟩ := b
    show List.lookup (r x) ((r y, payload) :: Scope.renamed r s) = _
    rw [List.lookup_cons, List.lookup_cons, ih]
    by_cases h : x = y
    · rw [h, beq_self_eq_true, beq_self_eq_true]
    · have hne : r x ≠ r y := fun heq => h (hr heq)
      rw [beq_false_of_ne h, beq_false_of_ne hne]

theorem Chain.visible_renamed (c : Chain α) : (c.renamed r).visible = c.visible.map (Scope.renamed r) := by
  obtain ⟨mode, scopes⟩ := c
  cases mode with
  | lexical => rfl
  | snapshot => exact List.map_take.symm

/-- A new name is bound to what the old one was. -/
theorem Chain.resolve_renamed (hr : Function.Injective r) (c : Chain α) (x : String) :
    (c.renamed r).resolve (r x) = c.resolve x := by
  have hlookup : ((fun s : Scope α => s.lookup (r x)) ∘ Scope.renamed r) = fun s => s.lookup x :=
    funext fun s => Scope.lookup_renamed hr s x
  rw [resolve, visible_renamed, List.findSome?_map, hlookup]
  rfl

end

namespace Chain

theorem enter_renamed (c : Chain α) : (c.renamed r).enter = c.enter.renamed r := by
  obtain ⟨mode, scopes⟩ := c
  cases mode with
  | lexical => rfl
  | snapshot => cases scopes <;> rfl

theorem leave_renamed (c : Chain α) :
    (c.renamed r).leave = (c.leave.map (Chain.renamed r)).mapError (ScopeFault.renamed r) := by
  obtain ⟨mode, scopes⟩ := c
  cases scopes <;> rfl

theorem bind_renamed (c : Chain α) (x : String) (payload : α) :
    (c.renamed r).bind (r x) payload =
      ((c.bind x payload).map (Chain.renamed r)).mapError (ScopeFault.renamed r) := by
  obtain ⟨mode, scopes⟩ := c
  cases scopes <;> rfl

end Chain

namespace Passage

/-- The passage with new names, given what they make of its tree and of what it comes to. -/
def renamed (f : τ → τ) (g : β → β) (p : Passage α τ β) : Passage α τ β :=
  ⟨f p.tree, p.chain.renamed r, p.calls.map (Call.renamed r),
    (p.result.map g).mapError (Fault.renamed r)⟩

variable {r}
variable {f : τ → τ} {f' : σ → σ} {f'' : υ → υ} {g : β → β} {g' : γ → γ}
variable {p p' : Passage α τ β}

theorem bind_renamed (tree : τ) (chain : Chain α) (x : String) (payload : α) :
    Passage.bind (f tree) (chain.renamed r) (r x) payload =
      (Passage.bind tree chain x payload).renamed r f id := by
  rw [Passage.bind, Passage.bind, Chain.bind_renamed]
  cases chain.bind x payload <;> rfl

theorem mapTree_renamed {h h' : τ → σ} (hp : p' = p.renamed r f g) (hh : ∀ t, h' (f t) = f' (h t)) :
    p'.mapTree h' = (p.mapTree h).renamed r f' g := by
  subst hp
  simp only [renamed, mapTree, hh]

theorem mapResult_renamed {h h' : β → γ} (hp : p' = p.renamed r f g) (hh : ∀ b, h' (g b) = g' (h b)) :
    p'.mapResult h' = (p.mapResult h).renamed r f g' := by
  subst hp
  obtain ⟨tree, chain, calls, result⟩ := p
  cases result with
  | error fault => rfl
  | ok b => simp only [renamed, mapResult, Except.map, mapError_ok, hh]

theorem andThen_renamed {join join' : τ → σ → υ} {rest rest' : σ}
    {second second' : Chain α → β → Passage α σ γ} (hp : p' = p.renamed r f g)
    (hrest : rest' = f' rest)
    (hsecond : ∀ c b, second' (c.renamed r) (g b) = (second c b).renamed r f' g')
    (hjoin : ∀ t u, join' (f t) (f' u) = f'' (join t u)) :
    andThen join' rest' p' second' = (andThen join rest p second).renamed r f'' g' := by
  subst hp hrest
  obtain ⟨tree, chain, calls, result⟩ := p
  cases result with
  | error fault => simp only [renamed, andThen, Except.map, mapError_error, hjoin]
  | ok b => simp only [renamed, andThen, Except.map, mapError_ok, hsecond, hjoin, List.map_append]

theorem inScope_renamed (chain : Chain α) {block block' : Chain α → Passage α τ β}
    (hblock : ∀ c, block' (c.renamed r) = (block c).renamed r f g) :
    inScope (chain.renamed r) block' = (inScope chain block).renamed r f g := by
  simp only [inScope, Chain.within, Chain.enter_renamed, hblock]
  simp only [renamed, Chain.leave_renamed]
  cases (block chain.enter).chain.leave with
  | ok outer => simp [Except.map, Call.renamed]
  | error fault => simp [Except.map, notLeft, Call.renamed, Fault.renamed]

end Passage

end StyleLang
