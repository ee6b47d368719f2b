import StyleLang.Node

/-!
# Walking a tree

`walk` visits a node and all that is below it in document order, from a stack of the nodes still to
be visited. `placeMark` fills the slot of the node with a given number in that order.
-/

namespace StyleLang.Node

mutual

/-- The number of nodes from this one downwards. -/
def size : Node → Nat
  | literal _ _ => 1
  | reference _ _ => 1
  | operation _ _ l r => 1 + l.size + r.size
  | declaration _ _ e => 1 + e.size
  | assignment _ _ e => 1 + e.size
  | ifClause _ c body => 1 + c.size + sizeAll body
  | ifElse _ c body _ ebody => 1 + c.size + sizeAll body + (1 + sizeAll ebody)
  | elseClause _ body => 1 + sizeAll body
  | rule _ _ body => 1 + sizeAll body
  | sheet _ members => 1 + sizeAll members
  | foreign _ => 1

def sizeAll : List Node → Nat
  | [] => 0
  | n :: ns => n.size + sizeAll ns

end

theorem sizeAll_append (ms ns : List Node) : sizeAll (ms ++ ns) = sizeAll ms + sizeAll ns := by
  induction ms with
  | nil => simp [sizeAll]
  | cons m ms ih => simp [sizeAll, ih, Nat.add_assoc]

/-- A node counts itself once, and its children. -/
theorem size_eq (n : Node) : n.size = 1 + sizeAll n.children := by
  cases n <;> simp [size, children, sizeAll, sizeAll_append] <;> omega

/-- Visits the nodes on the stack, top first, each followed by what is below it. -/
def visit : List Node → List Node
  | [] => []
  | n :: stack => n :: visit (n.children ++ stack)
termination_by stack => sizeAll stack
decreasing_by
  rw [sizeAll_append, sizeAll, size_eq]
  omega

/-- A node and its descendants in document order. -/
def walk (n : Node) : List Node := visit [n]

/-- The diagnostics from this node downwards, in document order. -/
def diagnostics (n : Node) : List Diagnostic := n.walk.filterMap mark

def hasErrors (n : Node) : Bool := n.walk.any fun m => m.mark.isSome

/-- Fills the slot of the node with the wanted number. -/
def fillAt (target : Nat) (d : Diagnostic) (number : Nat) (m : Mark) : Mark :=
  m.fill (if number = target then some d else none)

mutual

/-- Numbers the nodes in document order from `next` on and fills the slot of number `target`.
Returns the first number not used. -/
def placeMark (target : Nat) (d : Diagnostic) (next : Nat) : Node → Node × Nat
  | literal m v => (literal (fillAt target d next m) v, next + 1)
  | reference m x => (reference (fillAt target d next m) x, next + 1)
  | operation m op l r =>
    let l' := l.placeMark target d (next + 1)
    let r' := r.placeMark target d l'.2
    (operation (fillAt target d next m) op l'.1 r'.1, r'.2)
  | declaration m p e =>
    let e' := e.placeMark target d (next + 1)
    (declaration (fillAt target d next m) p e'.1, e'.2)
  | assignment m x e =>
    let e' := e.placeMark target d (next + 1)
    (assignment (fillAt target d next m) x e'.1, e'.2)
  | ifClause m c body =>
    let c' := c.placeMark target d (next + 1)
    let body' := placeMarkAll target d c'.2 body
    (ifClause (fillAt target d next m) c'.1 body'.1, body'.2)
  | ifElse m c body em ebody =>
    let c' := c.placeMark target d (next + 1)
    let body' := placeMarkAll target d c'.2 body
    let ebody' := placeMarkAll target d (body'.2 + 1) ebody
    (ifElse (fillAt target d next m) c'.1 body'.1 (fillAt target d body'.2 em) ebody'.1, ebody'.2)
  | elseClause m body =>
    let body' := placeMarkAll target d (next + 1) body
    (elseClause (fillAt target d next m) body'.1, body'.2)
  | rule m ss body =>
    let body' := placeMarkAll target d (next + 1) body
    (rule (fillAt target d next m) ss body'.1, body'.2)
  | sheet m members =>
    let members' := placeMarkAll target d (next + 1) members
    (sheet (fillAt target d next m) members'.1, members'.2)
  | foreign t => (foreign t, next + 1)

def placeMarkAll (target : Nat) (d : Diagnostic) (next : Nat) : List Node → List Node × Nat
  | [] => ([], next)
  | n :: ns =>
    let n' := n.placeMark target d next
    let ns' := placeMarkAll target d n'.2 ns
    (n'.1 :: ns'.1, ns'.2)

end

end StyleLang.Node

namespace StyleLang.Sheet

def diagnostics (s : Sheet) : List Diagnostic := s.node.diagnostics

def hasErrors (s : Sheet) : Bool := s.node.hasErrors

/-- The number of a node in document order, counted from zero and modulo the number of nodes. -/
def position (s : Sheet) (index : Int) : Nat := (index % s.node.size).toNat

def nodeAt (s : Sheet) (index : Int) : Node := (s.node.walk[s.position index]?).getD s.node

/-- Fills the slot of a node given by its number. -/
def placeMark (index : Int) (d : Diagnostic) (s : Sheet) : Sheet :=
  let target := s.position index
  { mark := Node.fillAt target d 0 s.mark
    members := (Node.placeMarkAll target d 1 s.members).1 }

end StyleLang.Sheet
