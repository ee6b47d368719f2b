import StyleLang.Text.Quoted

/-!
# Scope chains

A chain is a stack of scopes, innermost first. In a lexical chain a new scope is empty and a name is
looked up from the innermost scope outwards. In a snapshot chain a new scope is a copy of the one
around it and only the innermost scope is looked at.
-/

namespace StyleLang

/-- The bindings of one scope, latest first, so that a later binding of a name hides an earlier. -/
abbrev Scope (α : Type) := List (String × α)

inductive ScopeMode where
  | lexical
  | snapshot
  deriving DecidableEq

structure Chain (α : Type) where
  mode : ScopeMode
  scopes : List (Scope α)
  deriving DecidableEq

inductive ScopeFault where
  | nothingToLeave
  | nowhereToBind (name : String)
  deriving DecidableEq

def ScopeFault.message : ScopeFault → String
  | nothingToLeave => "leave_scope() called with no active scope"
  | nowhereToBind name => "cannot bind " ++ Text.quoted name ++ ": no active scope"

/-- A call that changes a chain. -/
inductive Call (α : Type) where
  | enter
  | leave
  | bind (name : String) (payload : α)
  deriving DecidableEq

/-- The depth that a chain of the given depth has after a call. -/
def Call.depthAfter {α : Type} (depth : Nat) : Call α → Nat
  | enter => depth + 1
  | leave => depth - 1
  | bind _ _ => depth

/-- The greatest depth that calls lead to, beginning at the given depth. -/
def Call.maxDepth {α : Type} (calls : List (Call α)) (depth : Nat) : Nat :=
  match calls with
  | [] => depth
  | c :: rest => max depth (maxDepth rest (c.depthAfter depth))

namespace Chain

variable {α : Type}

def empty (mode : ScopeMode) : Chain α := ⟨mode, []⟩

def depth (c : Chain α) : Nat := c.scopes.length

/-- The scope that a new one starts from. -/
def fresh (c : Chain α) : Scope α :=
  match c.mode, c.scopes with
  | .snapshot, top :: _ => top
  | _, _ => []

def enter (c : Chain α) : Chain α := { c with scopes := c.fresh :: c.scopes }

def leave (c : Chain α) : Except ScopeFault (Chain α) :=
  match c.scopes with
  | [] => .error .nothingToLeave
  | _ :: rest => .ok { c with scopes := rest }

/-- Binds a name in the innermost scope only. -/
def bind (c : Chain α) (name : String) (payload : α) : Except ScopeFault (Chain α) :=
  match c.scopes with
  | [] => .error (.nowhereToBind name)
  | top :: rest => .ok { c with scopes := ((name, payload) :: top) :: rest }

/-- The scopes that a look-up goes through, in order. -/
def visible (c : Chain α) : List (Scope α) :=
  match c.mode with
  | .lexical => c.scopes
  | .snapshot => c.scopes.take 1

def resolve (c : Chain α) (name : String) : Option α :=
  c.visible.findSome? fun scope => scope.lookup name

def isBound (c : Chain α) (name : String) : Bool :=
  c.visible.any fun scope => (scope.lookup name).isSome

def describe (c : Chain α) : String :=
  "ScopeChain(depth=" ++ toString c.depth ++ ", snapshot="
    ++ (match c.mode with
        | .lexical => "False"
        | .snapshot => "True") ++ ")"

/-- Runs a block in a scope of its own. The scope is left however the block ends; `onFault` says what
a failure to leave it makes of the block's result. -/
def within {ρ : Type} (c : Chain α) (onFault : ScopeFault → ρ → ρ)
    (block : Chain α → Chain α × ρ) : Chain α × ρ :=
  let inner := block c.enter
  match inner.1.leave with
  | .ok outer => (outer, inner.2)
  | .error f => (inner.1, onFault f inner.2)

end Chain

end StyleLang
