import Mathlib.Data.List.Pairwise
import Mathlib.Order.Bounds.Basic
import StyleLang.Proofs.Tree.Placement
import StyleLang.Proofs.Tree.Walk

/-!
# How deep blocks are nested

The blocks of a tree are the bodies of the sheet, of its rules and of the clauses. An else-body stands
beside the if-body and not in it. The nesting of a tree is the greatest number of blocks of which each is
in those before it.
-/

namespace StyleLang.Node

/-- Rules, if-clauses and else-clauses: the nodes below the root of a sheet that have a block. -/
def isBlock : Node → Bool
  | ifClause _ _ _ => true
  | ifElse _ _ _ _ _ => true
  | elseClause _ _ => true
  | rule _ _ _ => true
  | _ => false

/-- The number of wanted nodes among the given ones and all that is below them. -/
def countBelow (wanted : Node → Bool) (ns : List Node) : Nat := (ns.flatMap walk).countP wanted

section

variable (wanted : Node → Bool)

@[simp] theorem countBelow_nil : countBelow wanted [] = 0 := rfl

theorem countBelow_append (ns ms : List Node) :
    countBelow wanted (ns ++ ms) = countBelow wanted ns + countBelow wanted ms := by
  rw [countBelow, List.flatMap_append, List.countP_append]
  rfl

theorem countBelow_cons (n : Node) (ns : List Node) :
    countBelow wanted (n :: ns) = countBelow wanted [n] + countBelow wanted ns :=
  countBelow_append wanted [n] ns

/-- A node counts itself, if it is wanted, and what is below it. -/
theorem countBelow_singleton (n : Node) :
    countBelow wanted [n] = (if wanted n then 1 else 0) + countBelow wanted n.children := by
  rw [countBelow, List.flatMap_singleton, walk_eq, List.countP_cons, Nat.add_comm]
  rfl

theorem countP_walk (n : Node) : n.walk.countP wanted = countBelow wanted [n] := by
  rw [countBelow, List.flatMap_singleton]

end

theorem countBelow_of_value {wanted : Node → Bool} (h : ∀ n, n.isValue = true → wanted n = false) {e : Node}
    (he : e.isValue = true) : countBelow wanted [e] = 0 := by
  cases e with
  | literal | reference => simp [countBelow_singleton, h _ he, children]
  | operation m op l r =>
    have hself := h _ he
    rw [isValue, Bool.and_eq_true] at he
    rw [countBelow_singleton, hself, children, countBelow_cons, countBelow_of_value h he.1,
      countBelow_of_value h he.2]
    rfl
  | declaration | assignment | ifClause | ifElse | elseClause | rule | sheet | foreign => cases he

theorem isBlock_of_value {e : Node} (h : e.isValue = true) : e.isBlock = false := by
  cases e <;> first | rfl | cases h

theorem isRule_of_value {e : Node} (h : e.isValue = true) : e.isRule = false := by
  cases e <;> first | rfl | cases h

theorem blocks_ifClause {c : Node} (h : c.isValue = true) (m : Mark) (body : List Node) :
    countBelow isBlock [ifClause m c body] = countBelow isBlock body + 1 := by
  rw [countBelow_singleton, children, countBelow_cons,
    countBelow_of_value (fun _ => isBlock_of_value) h, isBlock, if_pos rfl]
  omega

/-- With its else-clause an if-clause has two blocks. -/
theorem blocks_ifElse {c : Node} (h : c.isValue = true) (m em : Mark) (body ebody : List Node) :
    countBelow isBlock [ifElse m c body em ebody] =
      (countBelow isBlock body + 1) + (countBelow isBlock ebody + 1) := by
  have helse : countBelow isBlock [elseClause em ebody] = 1 + countBelow isBlock ebody := by
    rw [countBelow_singleton, children, isBlock, if_pos rfl]
  rw [countBelow_singleton, children, List.cons_append, countBelow_cons, countBelow_append,
    countBelow_of_value (fun _ => isBlock_of_value) h, helse, isBlock, if_pos rfl]
  omega

theorem blocks_rule (m : Mark) (ss : List Selector) (body : List Node) :
    countBelow isBlock [rule m ss body] = countBelow isBlock body + 1 := by
  rw [countBelow_singleton, children, isBlock, if_pos rfl, Nat.add_comm]

mutual

/-- In the body of a rule there is no rule, if it is well placed. -/
theorem rules_bodyMember {n : Node} (h : n.isBodyMember = true) : countBelow isRule [n] = 0 := by
  have hvalue : ∀ {e : Node}, e.isValue = true → countBelow isRule [e] = 0 :=
    countBelow_of_value fun _ => isRule_of_value
  cases n with
  | declaration m p e | assignment m x e =>
    rw [countBelow_singleton, children, hvalue h]
    rfl
  | ifClause m c body =>
    obtain ⟨hc, hbody⟩ := Bool.and_eq_true_iff.mp h
    rw [countBelow_singleton, children, countBelow_cons, hvalue hc, rules_body hbody]
    rfl
  | ifElse m c body em ebody =>
    rw [isBodyMember, Bool.and_eq_true, Bool.and_eq_true] at h
    have helse : countBelow isRule [elseClause em ebody] = 0 := by
      rw [countBelow_singleton, children, rules_body h.2]
      rfl
    rw [countBelow_singleton, children, List.cons_append, countBelow_cons, countBelow_append,
      hvalue h.1.1, rules_body h.1.2, helse]
    rfl
  | literal | reference | operation | elseClause | rule | sheet | foreign => cases h

theorem rules_body {ns : List Node} (h : areBodyMembers ns = true) : countBelow isRule ns = 0 := by
  cases ns with
  | nil => rfl
  | cons n ns =>
    obtain ⟨hn, hns⟩ := Bool.and_eq_true_iff.mp h
    rw [countBelow_cons, rules_bodyMember hn, rules_body hns]

end

/-- All rules of a well-placed sheet are members of the sheet. -/
theorem rules_sheetMembers {ns : List Node} (h : ns.all isSheetMember = true) :
    countBelow isRule ns = ns.countP isRule := by
  induction ns with
  | nil => rfl
  | cons n ns ih =>
    rw [List.all_cons, Bool.and_eq_true] at h
    have hn : countBelow isRule [n] = if n.isRule then 1 else 0 := by
      cases n with
      | assignment m x e => exact rules_bodyMember h.1
      | rule m ss body => rw [countBelow_singleton, children, rules_body h.1, Nat.add_zero]
      | literal | reference | operation | declaration | ifClause | ifElse | elseClause | sheet
      | foreign => cases h.1
    rw [countBelow_cons, hn, ih h.2, List.countP_cons, Nat.add_comm]

mutual

/-- The greatest number of blocks from the node downwards of which each is in those before it. -/
def nesting : Node → Nat
  | literal _ _ => 0
  | reference _ _ => 0
  | operation _ _ l r => max l.nesting r.nesting
  | declaration _ _ e => e.nesting
  | assignment _ _ e => e.nesting
  | ifClause _ c body => max c.nesting (nestingAll body + 1)
  | ifElse _ c body _ ebody => max c.nesting (max (nestingAll body + 1) (nestingAll ebody + 1))
  | elseClause _ body => nestingAll body + 1
  | rule _ _ body => nestingAll body + 1
  | sheet _ members => nestingAll members + 1
  | foreign _ => 0

def nestingAll : List Node → Nat
  | [] => 0
  | n :: ns => max n.nesting (nestingAll ns)

end

@[simp] theorem nestingAll_singleton (n : Node) : nestingAll [n] = n.nesting := Nat.max_zero _

theorem nestingAll_append (ns ms : List Node) :
    nestingAll (ns ++ ms) = max (nestingAll ns) (nestingAll ms) := by
  induction ns with
  | nil => exact (Nat.zero_max _).symm
  | cons n ns ih => rw [List.cons_append, nestingAll, ih, nestingAll, Nat.max_assoc]

theorem nesting_of_value {e : Node} (h : e.isValue = true) : e.nesting = 0 := by
  cases e with
  | literal | reference => rfl
  | operation m op l r =>
    rw [isValue, Bool.and_eq_true] at h
    rw [nesting, nesting_of_value h.1, nesting_of_value h.2]
    rfl
  | declaration | assignment | ifClause | ifElse | elseClause | rule | sheet | foreign => cases h

theorem nesting_le_nestingAll {n : Node} {ns : List Node} (h : n ∈ ns) : n.nesting ≤ nestingAll ns := by
  induction ns with
  | nil => cases h
  | cons m ms ih =>
    rw [nestingAll]
    rcases List.mem_cons.mp h with rfl | h
    · exact le_max_left _ _
    · exact (ih h).trans (le_max_right _ _)

theorem nestingAll_attained (ns : List Node) :
    nestingAll ns = 0 ∨ ∃ (i : Nat) (n : Node), ns[i]? = some n ∧ n.nesting = nestingAll ns := by
  induction ns with
  | nil => exact Or.inl rfl
  | cons m ms ih =>
    rw [nestingAll]
    rcases le_total (nestingAll ms) m.nesting with hle | hle
    · exact Or.inr ⟨0, m, rfl, (max_eq_left hle).symm⟩
    · rw [max_eq_right hle]
      rcases ih with h | ⟨i, n, hn, h⟩
      · exact Or.inl h
      · exact Or.inr ⟨i + 1, n, hn, h⟩

theorem nesting_child_le {n c : Node} (h : c ∈ n.children) : c.nesting ≤ n.nesting := by
  cases n with
  | literal | reference | foreign => cases h
  | operation m op l r =>
    rcases List.mem_pair.mp h with rfl | rfl
    · exact le_max_left _ _
    · exact le_max_right _ _
  | declaration m p e | assignment m x e =>
    obtain rfl := List.mem_singleton.mp h
    exact le_rfl
  | elseClause m body | rule m ss body | sheet m body =>
    exact (nesting_le_nestingAll h).trans (Nat.le_succ _)
  | ifClause m c' body =>
    rw [nesting]
    rcases List.mem_cons.mp h with rfl | h
    · exact le_max_left _ _
    · exact ((nesting_le_nestingAll h).trans (Nat.le_succ _)).trans (le_max_right _ _)
  | ifElse m c' body em ebody =>
    rw [nesting]
    rcases List.mem_append.mp h with h | h
    · rcases List.mem_cons.mp h with rfl | h
      · exact le_max_left _ _
      · exact ((nesting_le_nestingAll h).trans (Nat.le_succ _)).trans
          ((le_max_left _ _).trans (le_max_right _ _))
    · obtain rfl := List.mem_singleton.mp h
      exact (le_max_right _ _).trans (le_max_right _ _)

theorem nesting_block_le {n : Node} {first : Nat} {members : List Node}
    (h : n.block? = some (first, members)) : nestingAll members + 1 ≤ n.nesting := by
  cases n <;> cases h <;> simp [nesting]

/-- The nesting of a node is that of a child, or one more than that of the members of its block. -/
theorem nesting_attained (n : Node) :
    n.nesting = 0 ∨ (∃ c ∈ n.children, c.nesting = n.nesting) ∨
      ∃ first members, n.block? = some (first, members) ∧ n.nesting = nestingAll members + 1 := by
  cases n with
  | literal | reference | foreign => exact Or.inl rfl
  | operation m op l r =>
    rcases le_total r.nesting l.nesting with hle | hle
    · exact Or.inr (Or.inl ⟨l, by simp [children], (max_eq_left hle).symm⟩)
    · exact Or.inr (Or.inl ⟨r, by simp [children], (max_eq_right hle).symm⟩)
  | declaration m p e | assignment m x e => exact Or.inr (Or.inl ⟨e, by simp [children], rfl⟩)
  | elseClause m body | rule m ss body | sheet m body => exact Or.inr (Or.inr ⟨_, _, rfl, rfl⟩)
  | ifClause m c body =>
    rw [nesting]
    rcases le_total (nestingAll body + 1) c.nesting with hle | hle
    · exact Or.inr (Or.inl ⟨c, by simp [children], (max_eq_left hle).symm⟩)
    · exact Or.inr (Or.inr ⟨1, body, rfl, max_eq_right hle⟩)
  | ifElse m c body em ebody =>
    rw [nesting]
    rcases le_total (max (nestingAll body + 1) (nestingAll ebody + 1)) c.nesting with hle | hle
    · exact Or.inr (Or.inl ⟨c, by simp [children], (max_eq_left hle).symm⟩)
    rw [max_eq_right hle]
    rcases le_total (nestingAll ebody + 1) (nestingAll body + 1) with hle | hle
    · exact Or.inr (Or.inr ⟨1, body, rfl, max_eq_left hle⟩)
    · exact Or.inr (Or.inl ⟨.elseClause em ebody, by simp [children], by rw [max_eq_right hle]; rfl⟩)

/-- At each of the positions stands a node with a block, which encloses all the positions after it. -/
structure BlockChain (root : Node) (bs : List Position) : Prop where
  block : ∀ b ∈ bs, ∃ n, root.at? b = some n ∧ n.block?.isSome
  within : bs.Pairwise root.Encloses

theorem encloses_cons {n c : Node} {k : Nat} (hc : n.children[k]? = some c) {b p : Position} :
    n.Encloses (k :: b) (k :: p) ↔ c.Encloses b p := by
  have hat : ∀ q, n.at? (k :: q) = c.at? q := fun q => by simp [at?, hc]
  simp [Encloses, DirectMember, hat]

theorem blockChain_map {n c : Node} {k : Nat} (hc : n.children[k]? = some c) {bs : List Position} :
    n.BlockChain (bs.map (k :: ·)) ↔ c.BlockChain bs := by
  have hat : ∀ q, n.at? (k :: q) = c.at? q := fun q => by simp [at?, hc]
  constructor
  · intro h
    refine ⟨fun b hb => ?_, (List.pairwise_map.mp h.within).imp (encloses_cons hc).mp⟩
    rw [← hat]
    exact h.block _ (List.mem_map_of_mem hb)
  · intro h
    refine ⟨fun b hb => ?_, List.pairwise_map.mpr (h.within.imp (encloses_cons hc).mpr)⟩
    obtain ⟨q, hq, rfl⟩ := List.mem_map.mp hb
    rw [hat]
    exact h.block q hq

/-- Blocks that begin below a child are all below it. -/
theorem BlockChain.exists_child {n : Node} {k : Nat} {q : Position} {bs : List Position}
    (h : n.BlockChain ((k :: q) :: bs)) :
    ∃ c qs, n.children[k]? = some c ∧ (k :: q) :: bs = qs.map (k :: ·) ∧ c.BlockChain qs := by
  obtain ⟨m, hm, -⟩ := h.block (k :: q) List.mem_cons_self
  obtain ⟨c, hc, -⟩ := Option.bind_eq_some_iff.mp hm
  have hall : ∀ b ∈ bs, ∃ r, k :: r = b := by
    intro b hb
    obtain ⟨j, r, rfl, -⟩ := List.rel_of_pairwise_cons h.within hb
    exact ⟨q ++ j :: r, rfl⟩
  obtain ⟨qs, hqs⟩ : ∃ qs, bs = List.map (k :: ·) qs := by
    refine ⟨bs.map List.tail, ?_⟩
    rw [List.map_map]
    refine (List.map_id bs).symm.trans (List.map_congr_left fun b hb => ?_)
    obtain ⟨r, rfl⟩ := hall b hb
    rfl
  have heq : (k :: q) :: bs = (q :: qs).map (k :: ·) := by rw [hqs, List.map_cons]
  exact ⟨c, q :: qs, hc, heq, (blockChain_map hc).mp (heq ▸ h)⟩

theorem BlockChain.length_le {n : Node} {bs : List Position} (h : n.BlockChain bs) :
    bs.length ≤ n.nesting := by
  induction n using children_induction generalizing bs with
  | h n ih =>
    have hchild : ∀ k q rest, n.BlockChain ((k :: q) :: rest) →
        ∃ c, n.children[k]? = some c ∧ ((k :: q) :: rest).length ≤ c.nesting := by
      intro k q rest hrest
      obtain ⟨c, qs, hc, heq, hqs⟩ := hrest.exists_child
      rw [heq, List.length_map]
      exact ⟨c, hc, ih c (List.mem_of_getElem? hc) hqs⟩
    rcases bs with _ | ⟨_ | ⟨k, q⟩, rest⟩
    · exact Nat.zero_le _
    · obtain ⟨n', hn', hblock⟩ := h.block [] List.mem_cons_self
      obtain rfl := Option.some.inj hn'
      obtain ⟨⟨first, members⟩, hb⟩ := Option.isSome_iff_exists.mp hblock
      refine le_trans ?_ (nesting_block_le hb)
      rw [List.length_cons, Nat.add_le_add_iff_right]
      cases rest with
      | nil => exact Nat.zero_le _
      | cons p rest =>
        -- the next block is below a member of the block at the root
        obtain ⟨k, r, rfl, n', first', members', hn', hb', hle, hlt⟩ :=
          List.rel_of_pairwise_cons h.within List.mem_cons_self
        obtain rfl := Option.some.inj hn'
        cases hb.symm.trans hb'
        obtain ⟨c, hc, hlength⟩ := hchild k r rest
          ⟨fun b hb => h.block b (List.mem_cons_of_mem _ hb), h.within.of_cons⟩
        obtain ⟨i, rfl⟩ := Nat.exists_eq_add_of_le hle
        rw [block?_children hb (by omega)] at hc
        exact hlength.trans (nesting_le_nestingAll (List.mem_of_getElem? hc))
    · obtain ⟨c, hc, hlength⟩ := hchild k q rest h
      exact hlength.trans (nesting_child_le (List.mem_of_getElem? hc))

theorem exists_blockChain (n : Node) : ∃ bs, n.BlockChain bs ∧ bs.length = n.nesting := by
  induction n using children_induction with
  | h n ih =>
    have hlift : ∀ k c, n.children[k]? = some c →
        ∃ bs : List Position, n.BlockChain (bs.map (k :: ·)) ∧ bs.length = c.nesting := by
      intro k c hc
      obtain ⟨bs, hbs, hlength⟩ := ih c (List.mem_of_getElem? hc)
      exact ⟨bs, (blockChain_map hc).mpr hbs, hlength⟩
    rcases nesting_attained n with h | ⟨c, hc, h⟩ | ⟨first, members, hb, h⟩
    · exact ⟨[], ⟨nofun, .nil⟩, h.symm⟩
    · obtain ⟨k, hk⟩ := List.mem_iff_getElem?.mp hc
      obtain ⟨bs, hbs, hlength⟩ := hlift k c hk
      exact ⟨_, hbs, by rw [List.length_map, hlength, h]⟩
    · have hroot : ∃ m, n.at? [] = some m ∧ m.block?.isSome := ⟨n, rfl, by rw [hb]; rfl⟩
      rcases nestingAll_attained members with hzero | ⟨i, m, hm, hnest⟩
      · exact ⟨[[]], ⟨by simpa using hroot, List.pairwise_singleton _ _⟩, by rw [h, hzero]; rfl⟩
      · have hi := (List.getElem?_eq_some_iff.mp hm).1
        obtain ⟨bs, hbs, hlength⟩ := hlift (first + i) m (by rw [block?_children hb hi, hm])
        refine ⟨[] :: bs.map ((first + i) :: ·), ⟨?_, ?_⟩, ?_⟩
        · exact List.forall_mem_cons.mpr ⟨hroot, hbs.block⟩
        · refine List.pairwise_cons.mpr ⟨fun b hb' => ?_, hbs.within⟩
          obtain ⟨q, -, rfl⟩ := List.mem_map.mp hb'
          exact ⟨first + i, q, rfl, n, first, members, rfl, hb, by omega, by omega⟩
        · rw [List.length_cons, List.length_map, hlength, hnest, h]

/-- The nesting is the greatest number of blocks in each other. -/
theorem isGreatest_nesting (n : Node) :
    IsGreatest {k | ∃ bs, n.BlockChain bs ∧ bs.length = k} n.nesting := by
  refine ⟨exists_blockChain n, ?_⟩
  rintro k ⟨bs, hbs, rfl⟩
  exact hbs.length_le

end StyleLang.Node
