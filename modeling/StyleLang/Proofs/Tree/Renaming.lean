import StyleLang.Proofs.Css.Plain
import StyleLang.Proofs.Tree.Position
import StyleLang.Proofs.Tree.Walk
import StyleLang.Typing.Rules

/-!
# Renaming variables

Every assignment and every reference of a tree gets a new name. Properties, selectors and literals are not
touched, and neither are slots, but for the one report that shows the name of a variable. Whether different
names stay different is not asked here.
-/

namespace StyleLang

/-- What the slot of a reference to `x` holds afterwards: a report that `x` is not defined is one of the new
name. -/
def Diagnostic.renamed (r : String → String) (x : String) (d : Diagnostic) : Diagnostic :=
  if d = Typing.undefinedVariable x d.selector then Typing.undefinedVariable (r x) d.selector else d

def ScopeFault.renamed (r : String → String) : ScopeFault → ScopeFault
  | nothingToLeave => nothingToLeave
  | nowhereToBind x => nowhereToBind (r x)

namespace Node

mutual

/-- The tree with new names for its variables. -/
def renamed (r : String → String) : Node → Node
  | literal m v => literal m v
  | reference m x => reference (m.map (Diagnostic.renamed r x)) (r x)
  | operation m op l e => operation m op (l.renamed r) (e.renamed r)
  | declaration m p e => declaration m p (e.renamed r)
  | assignment m x e => assignment m (r x) (e.renamed r)
  | ifClause m c body => ifClause m (c.renamed r) (renamedAll r body)
  | ifElse m c body em ebody => ifElse m (c.renamed r) (renamedAll r body) em (renamedAll r ebody)
  | elseClause m body => elseClause m (renamedAll r body)
  | rule m ss body => rule m ss (renamedAll r body)
  | sheet m members => sheet m (renamedAll r members)
  | foreign t => foreign t

def renamedAll (r : String → String) : List Node → List Node
  | [] => []
  | n :: ns => n.renamed r :: renamedAll r ns

end

variable (r : String → String)

theorem renamedAll_eq_map (ns : List Node) : renamedAll r ns = ns.map (renamed r) := by
  induction ns with
  | nil => rfl
  | cons n ns ih => rw [renamedAll, ih, List.map_cons]

theorem renamedAll_append (ns ms : List Node) :
    renamedAll r (ns ++ ms) = renamedAll r ns ++ renamedAll r ms := by
  simp only [renamedAll_eq_map, List.map_append]

theorem renamedAll_eq_self {ns : List Node} (h : ∀ n ∈ ns, n.renamed r = n) : renamedAll r ns = ns := by
  rw [renamedAll_eq_map, List.map_congr_left h, List.map_id']

theorem children_renamed (n : Node) : (n.renamed r).children = n.children.map (renamed r) := by
  cases n <;> simp [renamed, children, renamedAll_eq_map]

theorem at?_renamed (n : Node) (p : Position) : (n.renamed r).at? p = (n.at? p).map (renamed r) :=
  at?_map (children_renamed r) n p

theorem mark_renamed {n : Node} (h : ∀ m x, n ≠ reference m x) : (n.renamed r).mark = n.mark := by
  cases n with
  | reference m x => exact absurd rfl (h m x)
  | _ => rfl

theorem mark_renamed_eq_none {n : Node} (h : n.mark = none) : (n.renamed r).mark = none := by
  cases n with
  | reference m x => exact congrArg (Option.map (Diagnostic.renamed r x)) h
  | _ => exact h

theorem hasErrors_renamed {n : Node} (h : n.hasErrors = false) : (n.renamed r).hasErrors = false := by
  refine hasErrors_of_at? fun p c hc => ?_
  rw [at?_renamed] at hc
  obtain ⟨d, hd, rfl⟩ := Option.map_eq_some_iff.mp hc
  exact mark_renamed_eq_none r (mark_at? h hd)

end Node

def Fault.renamed (r : String → String) : Fault → Fault
  | scope cause => scope (cause.renamed r)
  | sheetMember found => sheetMember (found.renamed r)
  | bodyMember found => bodyMember (found.renamed r)
  | expression found => expression (found.renamed r)
  | outlined found => outlined (found.renamed r)
  | undefinedVariable x => undefinedVariable (r x)
  | operands op lhs rhs => operands op (lhs.renamed r) (rhs.renamed r)
  | unevaluated found => unevaluated (found.renamed r)
  | notRule found => notRule (found.renamed r)
  | notDeclaration selectors found => notDeclaration selectors (found.renamed r)
  | tooLong => tooLong

namespace Sheet

def renamed (r : String → String) (s : Sheet) : Sheet := ⟨s.mark, Node.renamedAll r s.members⟩

variable (r : String → String) {s : Sheet}

/-- There are no variables in a plain sheet. -/
theorem IsPlain.renamed_eq (h : s.IsPlain) : s.renamed r = s := by
  have hmember : ∀ n, PlainMember n → n.renamed r = n := by
    intro n hn
    obtain ⟨m, p, m', v⟩ := hn
    rfl
  have hrule : ∀ n, PlainRule n → n.renamed r = n := by
    intro n hn
    obtain ⟨m, ss, hbody⟩ := hn
    rw [Node.renamed, Node.renamedAll_eq_self r fun d hd => hmember d (hbody d hd)]
  show Sheet.mk s.mark (Node.renamedAll r s.members) = s
  rw [Node.renamedAll_eq_self r fun n hn => hrule n (h n hn)]

end Sheet

end StyleLang
