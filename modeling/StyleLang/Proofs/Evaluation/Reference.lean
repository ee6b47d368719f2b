import Mathlib.Data.List.Forall2
import StyleLang.Evaluation.Fold
import StyleLang.Proofs.Typing.Lexical

/-!
# A reference semantics by position

Values, selected members and what is left of them, said of positions in the whole tree: with no chain, no
order of visits and no rebuilt lists. An expression denotes what its operands denote and what the last
assignment that counts for a name denotes; a member is selected by the conditions above it; a rule is left
with one node for each selected declaration and undecided if-clause, in document order.
-/

namespace StyleLang.Evaluation

open Position

/-- What an operation makes of two literals. Sums and differences take operands of one unit, and a scalar
next to a pixel; products take a scalar on either side. -/
inductive Combines : Operator → Literal → Literal → Literal → Prop
  | sum {op : Operator} {d : Dimension} {a b : Int} (hop : op ≠ .multiply) :
      Combines op (d.literal a) (d.literal b) (d.literal (apply op a b))
  | pixelScalar {op : Operator} {a b : Int} (hop : op ≠ .multiply) :
      Combines op (.pixel a) (.scalar b) (.pixel (apply op a b))
  | scalarPixel {op : Operator} {a b : Int} (hop : op ≠ .multiply) :
      Combines op (.scalar a) (.pixel b) (.pixel (apply op a b))
  | scaledRight {d : Dimension} {a b : Int} :
      Combines .multiply (.scalar a) (d.literal b) (d.literal (a * b))
  | scaledLeft {d : Dimension} {a b : Int} :
      Combines .multiply (d.literal a) (.scalar b) (d.literal (a * b))

theorem magnitude?_iff {v : Literal} {d : Dimension} {a : Int} :
    magnitude? v = some (d, a) ↔ v = d.literal a := by
  cases v <;> cases d <;> simp [magnitude?, Dimension.literal]

theorem combine?_eq_some {op : Operator} {v w u : Literal} :
    combine? op v w = some u ↔ ∃ d a e b unit, v = Dimension.literal d a ∧
      w = Dimension.literal e b ∧ Dimension.operation? op d e = some unit ∧
      u = unit.literal (apply op a b) := by
  constructor
  · intro h
    unfold combine? at h
    split at h
    · rename_i d a e b hv hw
      obtain ⟨unit, hunit, rfl⟩ := Option.map_eq_some_iff.mp h
      exact ⟨d, a, e, b, unit, magnitude?_iff.mp hv, magnitude?_iff.mp hw, hunit, rfl⟩
    · cases h
  · intro h
    obtain ⟨d, a, e, b, unit, hv, hw, hunit, rfl⟩ := h
    simp only [combine?, magnitude?_iff.mpr hv, magnitude?_iff.mpr hw, hunit, Option.map_some]

theorem combine?_iff {op : Operator} {v w u : Literal} :
    combine? op v w = some u ↔ Combines op v w u := by
  rw [combine?_eq_some]
  constructor
  · intro h
    obtain ⟨d, a, e, b, unit, rfl, rfl, hunit, rfl⟩ := h
    cases op with
    | multiply =>
      cases d <;> cases e <;> cases hunit <;> first | exact .scaledRight | exact .scaledLeft
    | add | subtract =>
      cases d <;> cases e <;> cases hunit <;>
        first
        | exact .sum (by decide)
        | exact .pixelScalar (by decide)
        | exact .scalarPixel (by decide)
  · intro h
    cases h with
    | @sum op d a b hop =>
      refine ⟨d, a, d, b, d, rfl, rfl, ?_, rfl⟩
      cases op <;> cases d <;> first | rfl | exact absurd rfl hop
    | @pixelScalar op a b hop =>
      exact ⟨.pixel, a, .scalar, b, .pixel, rfl, rfl, by cases op <;> rfl, rfl⟩
    | @scalarPixel op a b hop =>
      exact ⟨.scalar, a, .pixel, b, .pixel, rfl, rfl, by cases op <;> rfl, rfl⟩
    | @scaledRight d a b => exact ⟨.scalar, a, d, b, d, rfl, rfl, by cases d <;> rfl, rfl⟩
    | @scaledLeft d a b => exact ⟨d, a, .scalar, b, d, rfl, rfl, by cases d <;> rfl, rfl⟩

/-- The constant that the expression at a position comes to. A literal keeps its slot, also where a name
stands for it; an operation begins with an empty one. -/
inductive Denotes (root : Node) : Position → Constant → Prop
  | literal {p m v} (h : root.at? p = some (.literal m v)) : Denotes root p ⟨m, v⟩
  | reference {p m x q c} (h : root.at? p = some (.reference m x)) (hq : root.LastVisible x q p)
      (hc : Denotes root (q ++ [0]) c) : Denotes root p c
  | operation {p m op l r a b v} (h : root.at? p = some (.operation m op l r))
      (hl : Denotes root (p ++ [0]) a) (hr : Denotes root (p ++ [1]) b)
      (hv : Combines op a.value b.value v) : Denotes root p ⟨none, v⟩

section

variable {root : Node} {p : Position} {c : Constant}

theorem Denotes.of_literal (h : Denotes root p c) {m : Mark} {v : Literal}
    (hn : root.at? p = some (.literal m v)) : c = ⟨m, v⟩ := by
  cases h with
  | literal h => cases hn.symm.trans h; rfl
  | reference h | operation h => cases hn.symm.trans h

theorem Denotes.of_reference (h : Denotes root p c) {m : Mark} {x : String}
    (hn : root.at? p = some (.reference m x)) :
    ∃ q, root.LastVisible x q p ∧ Denotes root (q ++ [0]) c := by
  cases h with
  | reference h hq hc => cases hn.symm.trans h; exact ⟨_, hq, hc⟩
  | literal h | operation h => cases hn.symm.trans h

theorem Denotes.of_operation (h : Denotes root p c) {m : Mark} {op : Operator} {l r : Node}
    (hn : root.at? p = some (.operation m op l r)) :
    ∃ a b v, Denotes root (p ++ [0]) a ∧ Denotes root (p ++ [1]) b ∧
      Combines op a.value b.value v ∧ c = ⟨none, v⟩ := by
  cases h with
  | operation h hl hr hv => cases hn.symm.trans h; exact ⟨_, _, _, hl, hr, hv, rfl⟩
  | literal h | reference h => cases hn.symm.trans h

theorem Denotes.unique {c' : Constant} (h : Denotes root p c) (h' : Denotes root p c') : c = c' := by
  induction h generalizing c' with
  | literal h => exact (h'.of_literal h).symm
  | reference h hq hc ih =>
    obtain ⟨q', hq', hc'⟩ := h'.of_reference h
    obtain rfl := hq.unique hq'
    exact ih hc'
  | operation h hl hr hv ihl ihr =>
    obtain ⟨a, b, v, ha, hb, hv', rfl⟩ := h'.of_operation h
    obtain rfl := ihl ha
    obtain rfl := ihr hb
    rw [← combine?_iff] at hv hv'
    rw [Option.some.inj (hv.symm.trans hv')]

/-- A color is nowhere made but where it is written. -/
theorem Denotes.color_origin (h : Denotes root p c) {text : String} (hc : c.value = .color text) :
    ∃ q m, root.at? q = some (.literal m (.color text)) := by
  induction h with
  | @literal p m v h =>
    obtain rfl : v = .color text := hc
    exact ⟨p, m, h⟩
  | reference h hq hd ih => exact ih hc
  | operation h hl hr hv ihl ihr =>
    obtain rfl : _ = Literal.color text := hc
    obtain ⟨d, a, e, b, unit, -, -, -, hcolor⟩ := combine?_eq_some.mp (combine?_iff.mpr hv)
    cases unit <;> cases hcolor

end

/-- At `q` stands a member of the branch that the if-clause `n` at `p` selects. -/
inductive InBranch (root : Node) (p : Position) : Node → Position → Prop
  | body {n m first body i} (hc : n.condition?.isSome) (hv : Denotes root (p ++ [0]) ⟨m, .bool true⟩)
      (hb : n.block? = some (first, body)) (hi : i < body.length) : InBranch root p n (p ++ [first + i])
  | elseBody {m c body em ebody m' i} (hv : Denotes root (p ++ [0]) ⟨m', .bool false⟩)
      (hi : i < ebody.length) :
      InBranch root p (.ifElse m c body em ebody) (p ++ [body.length + 1] ++ [i])

/-- The members of rules, and of the branches that selected if-clauses select. -/
inductive Selected (root : Node) : Position → Prop
  | ruleMember {k m ss body i} (h : root.at? [k] = some (.rule m ss body)) (hi : i < body.length) :
      Selected root [k, i]
  | branchMember {p n q} (hp : Selected root p) (hn : root.at? p = some n) (hq : InBranch root p n q) :
      Selected root q

section

variable {root n : Node} {p q : Position}

theorem InBranch.isPrefix (h : InBranch root p n q) : p <+: q := by
  cases h with
  | body => exact List.prefix_append p _
  | elseBody =>
    rw [List.append_assoc]
    exact List.prefix_append p _

theorem Selected.two_le_length (h : Selected root p) : 2 ≤ p.length := by
  induction h with
  | ruleMember => simp
  | branchMember hp hn hq ih => exact ih.trans hq.isPrefix.length_le

/-- Between an if-clause and a member of its branch there is nothing but the else-clause. -/
theorem InBranch.between (h : InBranch root p n q) (hn : root.at? p = some n) {r : Position}
    {n' : Node} (hr : root.at? r = some n') (hrq : r <+: q) :
    r = q ∨ r <+: p ∨ ∃ m body, n' = .elseClause m body := by
  cases h with
  | body =>
    rcases List.prefix_concat_iff.mp hrq with rfl | hrp
    · exact Or.inl rfl
    · exact Or.inr (Or.inl hrp)
  | @elseBody m c body em ebody m' i =>
    rcases List.prefix_concat_iff.mp hrq with rfl | hrq
    · exact Or.inl rfl
    rcases List.prefix_concat_iff.mp hrq with rfl | hrp
    · rw [Node.at?_child hn] at hr
      have helse : n' = .elseClause em ebody := by simpa [Node.children, eq_comm] using hr
      exact Or.inr (Or.inr ⟨em, ebody, helse⟩)
    · exact Or.inr (Or.inl hrp)

/-- A member that is selected below another one stands below a member of the branch that this one
selects. -/
theorem Selected.exists_inBranch (h : Selected root q) (hp : Selected root p) (hpq : p <+: q)
    (hne : p ≠ q) (hn : root.at? p = some n) (helse : ∀ m body, n ≠ .elseClause m body) :
    ∃ r, InBranch root p n r ∧ r <+: q := by
  induction h with
  | ruleMember =>
    have hlen := hp.two_le_length
    exact absurd (hpq.eq_of_length_le hlen) hne
  | @branchMember q' n' q hq' hn' hq ih =>
    rcases hq.between hn' hn hpq with rfl | hpq' | ⟨m, body, rfl⟩
    · exact absurd rfl hne
    · by_cases heq : p = q'
      · subst heq
        obtain rfl := Option.some.inj (hn.symm.trans hn')
        exact ⟨q, hq, List.prefix_refl q⟩
      · obtain ⟨r, hr, hrq⟩ := ih hpq' heq
        exact ⟨r, hr, hrq.trans hq.isPrefix⟩
    · exact absurd rfl (helse m body)

/-- What is selected below a rule stands below one of its members. -/
theorem Selected.exists_ruleMember (h : Selected root q) {k : Nat} (hkq : [k] <+: q) {m : Mark}
    {ss : List Selector} {body : List Node} (hn : root.at? [k] = some (.rule m ss body)) :
    ∃ i < body.length, [k] ++ [i] <+: q := by
  induction h with
  | @ruleMember k' m' ss' body' i hn' hi =>
    obtain rfl : k = k' := by simpa using hkq
    cases hn.symm.trans hn'
    exact ⟨i, hi, List.prefix_refl _⟩
  | branchMember hp hn' hq ih =>
    have hlen : [k].length ≤ _ := Nat.le_of_succ_le hp.two_le_length
    obtain ⟨i, hi, hpre⟩ := ih (List.prefix_of_prefix_length_le hkq hq.isPrefix hlen)
    exact ⟨i, hi, hpre.trans hq.isPrefix⟩

end

/-- Of the selected member something is left: it is a declaration, or an if-clause whose condition is no
boolean. -/
inductive Remains (root : Node) : Position → Prop
  | declaration {q m name e} (hq : Selected root q)
      (hn : root.at? q = some (.declaration m name e)) : Remains root q
  | undecided {q n} (hq : Selected root q) (hn : root.at? q = some n) (hc : n.condition?.isSome)
      (hb : ∀ m b, ¬ Denotes root (q ++ [0]) ⟨m, .bool b⟩) : Remains root q

/-- What is left of a member: a declaration of the value that its expression denotes, or the if-clause as
it stands. -/
inductive Becomes (root : Node) : Position → Node → Prop
  | declaration {q m name e c} (hn : root.at? q = some (.declaration m name e))
      (hv : Denotes root (q ++ [0]) c) : Becomes root q (.declaration m name c.node)
  | undecided {q n c} (hn : root.at? q = some n) (hc : n.condition?.isSome)
      (hv : Denotes root (q ++ [0]) c) (hb : ∀ b, c.value ≠ .bool b) : Becomes root q n

/-- The nodes stand for the wanted positions, for each of them once and in document order. -/
def StandFor (becomes : Position → Node → Prop) (wanted : Position → Prop) (out : List Node) : Prop :=
  ∃ origins : List Position, List.Forall₂ becomes origins out ∧ origins.Pairwise EndsBefore ∧
    ∀ q, q ∈ origins ↔ wanted q

/-- A rule is left with its slot, its selectors and what is left of its members. -/
def RuleBecomes (root : Node) (q : Position) (n : Node) : Prop :=
  ∃ m ss body out, root.at? q = some (.rule m ss body) ∧ n = .rule m ss out ∧
    StandFor (Becomes root) (fun p => q <+: p ∧ Remains root p) out

namespace StandFor

variable {becomes : Position → Node → Prop} {wanted wanted' : Position → Prop} {out out' : List Node}

theorem nil (h : ∀ q, ¬ wanted q) : StandFor becomes wanted [] :=
  ⟨[], .nil, .nil, fun q => by simp [h q]⟩

theorem not_wanted (h : StandFor becomes wanted []) (q : Position) : ¬ wanted q := by
  obtain ⟨origins, hall, -, hmem⟩ := h
  cases hall
  exact fun hq => List.not_mem_nil ((hmem q).mpr hq)

theorem singleton {p : Position} {n : Node} (hn : becomes p n) (h : ∀ q, wanted q ↔ q = p) :
    StandFor becomes wanted [n] :=
  ⟨[p], .cons hn .nil, List.pairwise_singleton _ p, fun q => by rw [List.mem_singleton, h q]⟩

theorem congr (h : StandFor becomes wanted out) (hw : ∀ q, wanted q ↔ wanted' q) :
    StandFor becomes wanted' out := by
  obtain ⟨origins, hall, hord, hmem⟩ := h
  exact ⟨origins, hall, hord, fun q => (hmem q).trans (hw q)⟩

theorem append (h : StandFor becomes wanted out) (h' : StandFor becomes wanted' out')
    (hord : ∀ q q', wanted q → wanted' q' → EndsBefore q q') :
    StandFor becomes (fun q => wanted q ∨ wanted' q) (out ++ out') := by
  obtain ⟨origins, hall, hpair, hmem⟩ := h
  obtain ⟨origins', hall', hpair', hmem'⟩ := h'
  refine ⟨origins ++ origins', List.rel_append hall hall', ?_, fun q => ?_⟩
  · rw [List.pairwise_append]
    exact ⟨hpair, hpair', fun q hq q' hq' => hord q q' ((hmem q).mp hq) ((hmem' q').mp hq')⟩
  · rw [List.mem_append, hmem, hmem']

theorem exists_of_mem (h : StandFor becomes wanted out) {n : Node} (hn : n ∈ out) :
    ∃ q, wanted q ∧ becomes q n := by
  obtain ⟨origins, hall, -, hmem⟩ := h
  obtain ⟨hlength, hget⟩ := List.forall₂_iff_get.mp hall
  obtain ⟨i, hi, rfl⟩ := List.getElem_of_mem hn
  exact ⟨_, (hmem _).mp (List.get_mem origins ⟨i, hlength ▸ hi⟩), hget i _ hi⟩

end StandFor

end StyleLang.Evaluation
