import StyleLang.Fault

/-!
# Passes over a tree

A pass changes a part of a tree in place, with a scope chain at hand, and may stop at a fault. What
it leaves behind is kept apart from how it ended: after a fault the tree is changed up to the fault
and every scope that was entered has been left.
-/

namespace StyleLang

/-- What a pass over a part of a tree leaves behind. -/
structure Passage (α τ β : Type) where
  /-- The part, changed as far as the pass came. -/
  tree : τ
  chain : Chain α
  /-- The calls made on the chain, in order. -/
  calls : List (Call α)
  result : Except Fault β

namespace Passage

variable {α τ σ υ β γ : Type}

/-- Stops at a fault without a call on the chain. -/
def stop (tree : τ) (chain : Chain α) (fault : Fault) : Passage α τ β :=
  ⟨tree, chain, [], .error fault⟩

/-- Ends normally without a call on the chain. -/
def done (tree : τ) (chain : Chain α) (result : β) : Passage α τ β :=
  ⟨tree, chain, [], .ok result⟩

/-- Binds a name, which may be a fault. -/
def bind (tree : τ) (chain : Chain α) (name : String) (payload : α) : Passage α τ Unit :=
  match chain.bind name payload with
  | .ok chain' => ⟨tree, chain', [.bind name payload], .ok ()⟩
  | .error f => stop tree chain (.scope f)

/-- Runs one passage and, unless it stopped, another on the chain it left. The trees are joined;
`rest` is the second tree when it was not reached. -/
def andThen (join : τ → σ → υ) (rest : σ) (first : Passage α τ β)
    (second : Chain α → β → Passage α σ γ) : Passage α υ γ :=
  match first.result with
  | .error f => ⟨join first.tree rest, first.chain, first.calls, .error f⟩
  | .ok b =>
    let next := second first.chain b
    ⟨join first.tree next.tree, next.chain, first.calls ++ next.calls, next.result⟩

def mapTree (f : τ → σ) (p : Passage α τ β) : Passage α σ β :=
  ⟨f p.tree, p.chain, p.calls, p.result⟩

def mapResult (f : β → γ) (p : Passage α τ β) : Passage α τ γ :=
  ⟨p.tree, p.chain, p.calls, p.result.map f⟩

/-- What a passage comes to when the scope it ran in cannot be left. -/
def notLeft (f : ScopeFault) (p : Passage α τ β) : Passage α τ β :=
  { p with calls := p.calls.dropLast, result := .error (.scope f) }

/-- Runs a block in a scope of its own, left however the block ends. -/
def inScope (chain : Chain α) (block : Chain α → Passage α τ β) : Passage α τ β :=
  let ended := chain.within notLeft fun opened =>
    let inner := block opened
    (inner.chain, { inner with calls := inner.calls ++ [.leave] })
  { ended.2 with chain := ended.1, calls := .enter :: ended.2.calls }

end Passage

end StyleLang
