import StyleLang.Scope

/-!
# Scripts over a scope chain

A script is a list of actions on one chain. Every action answers on its own: a fault is the answer
of its action and the next one still runs. A block may be told to fail after its last action.
-/

namespace StyleLang

inductive ScopeAction (α : Type) where
  | enter
  | leave
  | bind (name : String) (payload : α)
  | resolve (name : String)
  | isBound (name : String)
  | describe
  /-- Runs the actions in a scope of their own and then fails, if it is told to. -/
  | within (actions : List (ScopeAction α)) (fails : Bool)

/-- Why a block did not end normally. -/
inductive BlockFault where
  | scope (cause : ScopeFault)
  | earlyExit
  deriving DecidableEq

def BlockFault.message : BlockFault → String
  | scope cause => cause.message
  | earlyExit => "early exit"

inductive ScopeAnswer (α : Type) where
  | done
  | value (found : Option α)
  | bound (found : Bool)
  | text (description : String)
  | fault (cause : ScopeFault)
  /-- The answers of a block's actions, each with the depth after it, and the block's own end. -/
  | block (steps : List (ScopeAnswer α × Nat)) (failure : Option BlockFault)

namespace ScopeAction

variable {α : Type}

/-- An action that changes the chain unless it fails. -/
def update (c : Chain α) : Except ScopeFault (Chain α) → Chain α × ScopeAnswer α
  | .ok c' => (c', .done)
  | .error f => (c, .fault f)

mutual

/-- The chain after an action, and the action's answer. -/
def run (c : Chain α) : ScopeAction α → Chain α × ScopeAnswer α
  | enter => (c.enter, .done)
  | leave => update c c.leave
  | bind name payload => update c (c.bind name payload)
  | resolve name => (c, .value (c.resolve name))
  | isBound name => (c, .bound (c.isBound name))
  | describe => (c, .text c.describe)
  | within actions fails =>
    let ended := c.within (fun f r => (r.1, some (.scope f))) fun opened =>
      let inner := runAll opened actions
      (inner.1, inner.2, if fails then some .earlyExit else none)
    (ended.1, .block ended.2.1 ended.2.2)

/-- The answers in order, each with the depth of the chain after it. -/
def runAll (c : Chain α) : List (ScopeAction α) → Chain α × List (ScopeAnswer α × Nat)
  | [] => (c, [])
  | a :: rest =>
    let first := run c a
    let others := runAll first.1 rest
    (others.1, (first.2, first.1.depth) :: others.2)

end

end ScopeAction

end StyleLang
