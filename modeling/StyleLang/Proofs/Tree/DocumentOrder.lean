import Mathlib.Data.List.Forall2
import Mathlib.Data.List.Sort
import StyleLang.Proofs.Tree.Position

/-!
# Document order

A node comes before what is below it, and of two positions that part the one under the earlier child comes
first. A list is in document order when it holds what is found in a tree, place by place in this order. What
is found, and by whom, is left open: lists in document order are put together and picked from alike, whether
they are of nodes or of what the nodes hold.
-/

namespace StyleLang

/-- Everything on the right stands for something on the left. -/
theorem exists_of_forall₂ {α β : Type} {R : α → β → Prop} {as : List α} {bs : List β}
    (h : List.Forall₂ R as bs) {b : β} (hb : b ∈ bs) : ∃ a, R a b := by
  induction h with
  | nil => cases hb
  | cons hab _ ih =>
    rcases List.mem_cons.mp hb with rfl | hb
    · exact ⟨_, hab⟩
    · exact ih hb

namespace Position

/-- In document order `q` comes before `p`: it stands above it, or ends before it. -/
def Precedes (q p : Position) : Prop := (∃ r, r ≠ [] ∧ p = q ++ r) ∨ EndsBefore q p

theorem Precedes.lt {q p : Position} (h : Precedes q p) : q < p := by
  rcases h with ⟨r, hr, rfl⟩ | h
  · cases r with
    | nil => exact absurd rfl hr
    | cons k r =>
      have hlt : q ++ [] < q ++ k :: r := List.append_left_lt (List.nil_lt_cons k r)
      rwa [List.append_nil] at hlt
  · exact h.lt

theorem precedes_nil (k : Nat) (p : Position) : Precedes [] (k :: p) :=
  Or.inl ⟨k :: p, List.cons_ne_nil k p, rfl⟩

theorem precedes_siblings {i j : Nat} (h : i < j) (q p : Position) : Precedes (i :: q) (j :: p) :=
  Or.inr (endsBefore_sibling [] q p h)

theorem Precedes.cons {q p : Position} (h : Precedes q p) (k : Nat) : Precedes (k :: q) (k :: p) := by
  rcases h with ⟨r, hr, rfl⟩ | ⟨b, i, j, r, s, rfl, rfl, hlt⟩
  · exact Or.inl ⟨r, hr, rfl⟩
  · exact Or.inr ⟨k :: b, i, j, r, s, rfl, rfl, hlt⟩

/-- The items are those found, one for each position at which something is found, in document order. -/
def InOrder {α : Type} (found : Position → α → Prop) (items : List α) : Prop :=
  ∃ places : List Position, List.Forall₂ found places items ∧ places.Pairwise Precedes ∧
    ∀ p a, found p a → p ∈ places

namespace InOrder

variable {α β : Type} {found other : Position → α → Prop} {items others : List α}

theorem nothing : InOrder (fun _ (_ : α) => False) [] :=
  ⟨[], .nil, .nil, fun _ _ h => h.elim⟩

theorem root (a : α) : InOrder (fun p b => p = [] ∧ b = a) [a] :=
  ⟨[[]], .cons ⟨rfl, rfl⟩ .nil, List.pairwise_singleton _ _, fun _ _ h => List.mem_singleton.mpr h.1⟩

theorem congr (h : InOrder found items) (hiff : ∀ p a, found p a ↔ other p a) : InOrder other items := by
  obtain ⟨places, hall, hord, hmem⟩ := h
  exact ⟨places, hall.imp fun p a => (hiff p a).mp, hord, fun p a hp => hmem p a ((hiff p a).mpr hp)⟩

/-- What is found below child `k`, seen from the parent. -/
theorem under (h : InOrder found items) (k : Nat) :
    InOrder (fun p a => ∃ q, p = k :: q ∧ found q a) items := by
  obtain ⟨places, hall, hord, hmem⟩ := h
  refine ⟨places.map (k :: ·), ?_, ?_, fun p a hp => ?_⟩
  · rw [List.forall₂_map_left_iff]
    exact hall.imp fun q a hq => ⟨q, rfl, hq⟩
  · rw [List.pairwise_map]
    exact hord.imp fun hq => hq.cons k
  · obtain ⟨q, rfl, hq⟩ := hp
    exact List.mem_map.mpr ⟨q, hmem q a hq, rfl⟩

/-- Of two lists the second may follow the first where everything in it stands behind. -/
theorem append (h : InOrder found items) (h' : InOrder other others)
    (hbehind : ∀ q p a b, found q a → other p b → Precedes q p) :
    InOrder (fun p a => found p a ∨ other p a) (items ++ others) := by
  obtain ⟨places, hall, hord, hmem⟩ := h
  obtain ⟨places', hall', hord', hmem'⟩ := h'
  refine ⟨places ++ places', List.rel_append (hall.imp fun _ _ => Or.inl) (hall'.imp fun _ _ => Or.inr),
    List.pairwise_append.mpr ⟨hord, hord', fun q hq p hp => ?_⟩, fun p a hp => ?_⟩
  · obtain ⟨a, ha⟩ := exists_of_forall₂ hall.flip hq
    obtain ⟨b, hb⟩ := exists_of_forall₂ hall'.flip hp
    exact hbehind q p a b ha hb
  · exact List.mem_append.mpr (hp.imp (hmem p a) (hmem' p a))

/-- Where the items are picked from, the places of those that are left out are left out too. -/
theorem exists_kept (hone : ∀ p a b, found p a → found p b → a = b) (f : α → Option β)
    {places : List Position} (hall : List.Forall₂ found places items) :
    ∃ kept : List Position, kept.Sublist places ∧
      List.Forall₂ (fun p b => ∃ a, found p a ∧ f a = some b) kept (items.filterMap f) ∧
      ∀ p ∈ places, ∀ a b, found p a → f a = some b → p ∈ kept := by
  induction hall with
  | nil => exact ⟨[], .slnil, .nil, by simp⟩
  | @cons p a places items hp _ ih =>
    obtain ⟨kept, hsub, hkept, hmem⟩ := ih
    cases hf : f a with
    | none =>
      refine ⟨kept, hsub.cons p, by rwa [List.filterMap_cons_none hf], fun q hq a' b hq' hb => ?_⟩
      rcases List.mem_cons.mp hq with rfl | hq
      · rw [hone q a' a hq' hp, hf] at hb
        cases hb
      · exact hmem q hq a' b hq' hb
    | some b =>
      refine ⟨p :: kept, hsub.cons_cons p, ?_, fun q hq a' b' hq' hb => ?_⟩
      · rw [List.filterMap_cons_some hf]
        exact .cons ⟨a, hp, hf⟩ hkept
      · rcases List.mem_cons.mp hq with rfl | hq
        · exact List.mem_cons_self
        · exact List.mem_cons_of_mem p (hmem q hq a' b' hq' hb)

theorem filterMap (h : InOrder found items) (hone : ∀ p a b, found p a → found p b → a = b)
    (f : α → Option β) :
    InOrder (fun p b => ∃ a, found p a ∧ f a = some b) (items.filterMap f) := by
  obtain ⟨places, hall, hord, hmem⟩ := h
  obtain ⟨kept, hsub, hkept, hmemkept⟩ := exists_kept hone f hall
  refine ⟨kept, hkept, hord.sublist hsub, fun p b hp => ?_⟩
  obtain ⟨a, hp, hb⟩ := hp
  exact hmemkept p (hmem p a hp) a b hp hb

/-- What is found settles the list: the order says where each item stands in it. -/
theorem unique (h : InOrder found items) (h' : InOrder found others)
    (hone : ∀ p a b, found p a → found p b → a = b) : items = others := by
  obtain ⟨places, hall, hord, hmem⟩ := h
  obtain ⟨places', hall', hord', hmem'⟩ := h'
  have hsame : ∀ p, p ∈ places ↔ p ∈ places' := by
    intro p
    constructor
    · intro hp
      obtain ⟨a, ha⟩ := exists_of_forall₂ hall.flip hp
      exact hmem' p a ha
    · intro hp
      obtain ⟨a, ha⟩ := exists_of_forall₂ hall'.flip hp
      exact hmem p a ha
  obtain rfl : places = places' :=
    List.Pairwise.eq_of_mem_iff (hord.imp Precedes.lt) (hord'.imp Precedes.lt) hsame
  clear hord hord' hmem hmem' hsame
  induction hall generalizing others with
  | nil =>
    cases hall'
    rfl
  | cons ha _ ih =>
    cases hall' with
    | cons ha' hrest' => rw [hone _ _ _ ha ha', ih hrest']

end InOrder

end Position

end StyleLang
