import StyleLang.Proofs.Tree.Walk

/-!
# What a tree reports

The diagnostics of a tree, said of positions: one for each filled slot, in document order. How the walk
finds them does not come in.
-/

namespace StyleLang

namespace Node

open Position

/-- The slot at a position holds the diagnostic. -/
def FilledWith (root : Node) (p : Position) (d : Diagnostic) : Prop :=
  ∃ n, root.at? p = some n ∧ n.mark = some d

theorem filledWith_nil {root : Node} {d : Diagnostic} :
    root.FilledWith [] d ↔ root.mark = some d := by
  simp [FilledWith]

theorem filledWith_cons {root : Node} {k : Nat} {p : Position} {d : Diagnostic} :
    root.FilledWith (k :: p) d ↔ ∃ c, root.children[k]? = some c ∧ c.FilledWith p d := by
  constructor
  · intro h
    obtain ⟨n, hn, hd⟩ := h
    obtain ⟨c, hc, hn⟩ := Option.bind_eq_some_iff.mp hn
    exact ⟨c, hc, n, hn, hd⟩
  · intro h
    obtain ⟨c, hc, n, hn, hd⟩ := h
    exact ⟨n, Option.bind_eq_some_iff.mpr ⟨c, hc, hn⟩, hd⟩

/-- The diagnostics are those of all filled slots, in document order. -/
def Reports (root : Node) (found : List Diagnostic) : Prop :=
  ∃ places : List Position, List.Forall₂ root.FilledWith places found ∧
    places.Pairwise Precedes ∧ ∀ p d, root.FilledWith p d → p ∈ places

theorem diagnostics_eq (n : Node) :
    n.diagnostics = n.mark.toList ++ n.children.flatMap diagnostics := by
  have hchildren : (n.children.flatMap walk).filterMap mark = n.children.flatMap diagnostics :=
    List.filterMap_flatMap
  rw [diagnostics, walk_eq, List.filterMap_cons, hchildren]
  cases n.mark <;> rfl

theorem reports_diagnostics (n : Node) : n.Reports n.diagnostics := by
  refine (walk_inOrder n).filterMap (fun p a b ha hb => ?_) mark
  exact Option.some.inj (ha.symm.trans hb)

/-- There is a diagnostic exactly if some slot is filled. -/
theorem Reports.ne_nil_iff {root : Node} {found : List Diagnostic} (h : root.Reports found) :
    found ≠ [] ↔ ∃ p d, root.FilledWith p d := by
  obtain ⟨places, hall, -, hmem⟩ := h
  constructor
  · intro hne
    cases hall with
    | nil => exact absurd rfl hne
    | cons hp _ => exact ⟨_, _, hp⟩
  · intro hfilled hnil
    obtain ⟨p, d, hp⟩ := hfilled
    subst hnil
    cases hall
    cases hmem p d hp

theorem FilledWith.unique {root : Node} {p : Position} {d d' : Diagnostic}
    (h : root.FilledWith p d) (h' : root.FilledWith p d') : d = d' := by
  obtain ⟨n, hn, hd⟩ := h
  obtain ⟨n', hn', hd'⟩ := h'
  obtain rfl := Option.some.inj (hn.symm.trans hn')
  exact Option.some.inj (hd.symm.trans hd')

/-- Where two lists are related item by item, an item of the first is related to one of the second. -/
theorem exists_related {α β : Type} {R : α → β → Prop} {as : List α} {bs : List β}
    (h : List.Forall₂ R as bs) {a : α} (ha : a ∈ as) : ∃ b ∈ bs, R a b := by
  obtain ⟨k, hk, rfl⟩ := List.getElem_of_mem ha
  have hk' : k < bs.length := h.length_eq ▸ hk
  exact ⟨bs[k], List.getElem_mem hk', h.get hk hk'⟩

/-- A tree has one report: the order settles where each diagnostic stands in it. -/
theorem Reports.unique {root : Node} {found found' : List Diagnostic} (h : root.Reports found)
    (h' : root.Reports found') : found = found' :=
  InOrder.unique h h' fun _ _ _ hd hd' => hd.unique hd'

/-- The second tree is the first with diagnostics put into slots that were empty. -/
structure OnlyFills (before after : Node) : Prop where
  same : after.same before = true
  kept : ∀ p d, before.FilledWith p d → after.FilledWith p d

end Node

end StyleLang
