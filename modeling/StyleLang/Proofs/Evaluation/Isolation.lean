import StyleLang.Proofs.Evaluation.Pipeline
import StyleLang.Proofs.Evaluation.Faithful
import StyleLang.Proofs.Typing.Isolation

/-!
# What evaluation does not carry over

Rules and if-clauses leave the chain of an evaluation as it was, so without one of them the others
evaluate to what they did before. Of the rule that an if-clause stood in, just what came of the if-clause
is gone. A sheet whose evaluation does not end normally is not followed.
-/

namespace StyleLang

namespace Evaluation

open Position

theorem flattenMember_chain {n : Node} (hn : n.condition?.isSome) (values : Values) :
    (flattenMember values n).chain = values := by
  cases n with
  | ifClause m c body =>
    simp only [flattenMember, inScope_flatten, Passage.mapTree]
    split
    · rfl
    · rfl
    · rw [Passage.inScope_eq (.refl values.enter)]
    · rfl
  | ifElse m c body em ebody =>
    simp only [flattenMember, inScope_flatten, Passage.mapTree]
    split <;> rfl
  | literal | reference | operation | declaration | assignment | elseClause | rule | sheet
  | foreign => cases hn

theorem evaluateMember_chain {n : Node} (hn : n.isRule = true) (values : Values) :
    (evaluateMember values n).chain = values := by
  cases n with
  | rule m ss body =>
    simp only [evaluateMember, inScope_flatten]
    split <;> rfl
  | literal | reference | operation | declaration | assignment | ifClause | ifElse | elseClause
  | sheet | foreign => cases hn

/-- The first list came of the node at `b`; the second is the first without what came of the node at `p`,
which stands between what came of the nodes before it and of those after it. -/
def Parted (root : Node) (b p : Position) (out out' : List Node) : Prop :=
  ∃ before inside after, out = before ++ inside ++ after ∧ out' = before ++ after ∧
    StandFor (Becomes root) (fun q => b <+: q ∧ EndsBefore q p ∧ Remains root q) before ∧
    StandFor (Becomes root) (fun q => p <+: q ∧ Remains root q) inside ∧
    StandFor (Becomes root) (fun q => b <+: q ∧ EndsBefore p q ∧ Remains root q) after

namespace Parted

variable {root : Node} {b p : Position} {out : List Node}

/-- Everything came of the node itself. -/
theorem all (h : StandFor (Becomes root) (fun q => p <+: q ∧ Remains root q) out) :
    Parted root p p out [] := by
  refine ⟨[], out, [], by simp, rfl, .nil fun q hq => ?_, h, .nil fun q hq => ?_⟩
  · exact hq.2.1.not_isPrefix.2 hq.1
  · exact hq.2.1.not_isPrefix.1 hq.1

/-- Nothing came of the node at `p`, and all the rest stands before it. -/
theorem all_before (h : StandFor (Becomes root) (fun q => b <+: q ∧ Remains root q) out)
    (hbp : b <+: p) (hall : ∀ q, b <+: q → Remains root q → EndsBefore q p) :
    Parted root b p out out := by
  refine ⟨out, [], [], by simp, by simp, h.congr fun q => ?_, .nil fun q hq => ?_, .nil fun q hq => ?_⟩
  · constructor
    · intro hq
      exact ⟨hq.1, hall q hq.1 hq.2, hq.2⟩
    · intro hq
      exact ⟨hq.1, hq.2.2⟩
  · exact (hall q (hbp.trans hq.1) hq.2).not_isPrefix.2 hq.1
  · exact (hall q hq.1 hq.2.2).asymm hq.2.1

/-- Nothing came of the node at `p`, and all the rest stands after it. -/
theorem all_after (h : StandFor (Becomes root) (fun q => b <+: q ∧ Remains root q) out)
    (hbp : b <+: p) (hall : ∀ q, b <+: q → Remains root q → EndsBefore p q) :
    Parted root b p out out := by
  refine ⟨[], [], out, by simp, by simp, .nil fun q hq => ?_, .nil fun q hq => ?_, h.congr fun q => ?_⟩
  · exact (hall q hq.1 hq.2.2).asymm hq.2.1
  · exact (hall q (hbp.trans hq.1) hq.2).not_isPrefix.1 hq.1
  · constructor
    · intro hq
      exact ⟨hq.1, hall q hq.1 hq.2, hq.2⟩
    · intro hq
      exact ⟨hq.1, hq.2.2⟩

/-- The members before and after the one that `p` stands in add to what stands before and after `p`. -/
theorem among {b₀ q : Position} {first j count : Nat} {here here' left right : List Node}
    (h : Parted root (b ++ [first + j]) (b ++ (first + j) :: q) here here') (hb₀ : b₀ <+: b)
    (hleft : StandFor (Becomes root)
      (fun r => ∃ i < j, b ++ [first + i] <+: r ∧ Remains root r) left)
    (hright : StandFor (Becomes root)
      (fun r => ∃ i < count, b ++ [first + (j + 1 + i)] <+: r ∧ Remains root r) right)
    (hcover : ∀ r, b₀ <+: r → Remains root r → ∃ i < j + 1 + count, b ++ [first + i] <+: r) :
    Parted root b₀ (b ++ (first + j) :: q) (left ++ here ++ right) (left ++ here' ++ right) := by
  obtain ⟨before, inside, after, rfl, rfl, hbefore, hinside, hafter⟩ := h
  have hp : b ++ [first + j] <+: b ++ (first + j) :: q := ⟨q, by simp⟩
  have hdown : ∀ {i r}, b ++ [first + i] <+: r → b₀ <+: r := fun hr =>
    hb₀.trans ((List.prefix_append b _).trans hr)
  refine ⟨left ++ before, inside, after ++ right, by simp, by simp, ?_, hinside, ?_⟩
  · refine (hleft.append hbefore ?_).congr fun r => ?_
    · rintro r r' ⟨i, hi, hr, -⟩ ⟨hr', -⟩
      exact endsBefore_of_siblings hr hr' (by omega)
    · constructor
      · rintro (⟨i, hi, hr, hrem⟩ | ⟨hr, hlt, hrem⟩)
        · exact ⟨hdown hr, endsBefore_of_siblings hr hp (by omega), hrem⟩
        · exact ⟨hdown hr, hlt, hrem⟩
      · rintro ⟨hr, hlt, hrem⟩
        obtain ⟨i, -, hpre⟩ := hcover r hr hrem
        rcases Nat.lt_trichotomy i j with hi | rfl | hi
        · exact Or.inl ⟨i, hi, hpre, hrem⟩
        · exact Or.inr ⟨hpre, hlt, hrem⟩
        · exact absurd hlt (endsBefore_of_siblings hp hpre (by omega)).asymm
  · refine (hafter.append hright ?_).congr fun r => ?_
    · rintro r r' ⟨hr, -⟩ ⟨i, hi, hr', -⟩
      exact endsBefore_of_siblings hr hr' (by omega)
    · constructor
      · rintro (⟨hr, hlt, hrem⟩ | ⟨i, hi, hr, hrem⟩)
        · exact ⟨hdown hr, hlt, hrem⟩
        · exact ⟨hdown hr, endsBefore_of_siblings hp hr (by omega), hrem⟩
      · rintro ⟨hr, hlt, hrem⟩
        obtain ⟨i, hi, hpre⟩ := hcover r hr hrem
        rcases Nat.lt_trichotomy i j with hij | rfl | hij
        · exact absurd hlt (endsBefore_of_siblings hpre hp (by omega)).asymm
        · exact Or.inl ⟨hpre, hlt, hrem⟩
        · obtain ⟨i', rfl⟩ := Nat.exists_eq_add_of_lt hij
          exact Or.inr ⟨i', by omega, by rwa [Nat.add_right_comm], hrem⟩

end Parted

/-- Without the if-clause at a position below it, the member comes to what it did without what came of the
if-clause. -/
def MemberParted (root clause n : Node) : Prop :=
  ∀ p q values out, root.at? p = some n → Selected root p →
    values.AgreesAt (Denotes root) root p → n.at? q = some clause → q ≠ [] →
      (flattenMember values n).result = .ok out → (∀ d ∈ out, PlainMember d) →
        ∃ out', (flattenMember values (n.without q)).result = .ok out' ∧
          Parted root p (p ++ q) out out'

section

variable {root clause : Node}

/-- In a block an if-clause may be exchanged for other if-clauses, or for none: the members around it come
to what they did. -/
theorem flatten_around {n m : Node} {b : Position} (hn : root.at? b = some n) {first : Nat}
    {before after : List Node} (hb : n.block? = some (first, before ++ m :: after))
    (hm : m.condition?.isSome)
    (hselected : ∀ i < (before ++ m :: after).length, Selected root (b ++ [first + i]))
    {values : Values} (ha : values.AgreesAt (Denotes root) root b) {out : List Node}
    (hok : (flatten values.enter (before ++ m :: after)).result = .ok out) :
    ∃ d left here right, out = left ++ here ++ right ∧
      d.AgreesAt (Denotes root) root (b ++ [first + before.length]) ∧
      (flattenMember d m).result = .ok here ∧
      StandFor (Becomes root)
        (fun r => ∃ i < before.length, b ++ [first + i] <+: r ∧ Remains root r) left ∧
      StandFor (Becomes root)
        (fun r => ∃ i < after.length, b ++ [first + (before.length + 1 + i)] <+: r ∧ Remains root r)
        right ∧
      ∀ between here', (∀ n ∈ between, n.condition?.isSome) →
        (Passage.gather flattenMember d between).result = .ok here' →
          (flatten values.enter (before ++ between ++ after)).result = .ok (left ++ here' ++ right) := by
  have hquiet : ∀ ns : List Node, (∀ n ∈ ns, n.condition?.isSome) → ∀ d : Values,
      (Passage.gather flattenMember d ns).chain = d :=
    fun ns h => Passage.gather_quiet fun n hn => flattenMember_chain (h n hn)
  rw [flatten_eq_gather, ← List.singleton_append, ← List.append_assoc] at hok
  obtain ⟨left, here, right, hleft, hhere, hright, rfl⟩ :=
    (Passage.gather_between_ok (hquiet [m] (by simpa using hm) _)).mp hok
  rw [Passage.gather_singleton_ok] at hhere
  generalize hd : (Passage.gather flattenMember values.enter before).chain = d at hhere hright
  have hlt : before.length < (before ++ m :: after).length := by simp
  have hat : root.at? (b ++ [first + before.length]) = some m := by
    rw [Node.at?_child hn, Node.block?_children hb hlt]
    simp
  have hfaithful : ∀ m' ∈ before ++ m :: after, MemberFaithful root m' :=
    fun m' _ => memberFaithful root m'
  obtain ⟨hfirst, hchain⟩ := members_standFor hn hb hfaithful hselected (k := 0)
    (fun i hi => by rw [Nat.zero_add, List.getElem?_append_left hi]) (fun _ => ha.first hn hb) hleft
  simp only [Nat.zero_add, hd] at hfirst hchain
  -- The members behind are come to with the chain that those in front left.
  have hnext : before.length + 1 < (before ++ m :: after).length →
      d.AgreesAt (Denotes root) root (b ++ [first + (before.length + 1)]) := by
    intro hlt'
    have h := (memberRun_of_ok hhere).agreesAt_next (hchain hlt) hat
      (directMember_of_lt hn hb hlt) (directMember_of_lt hn hb hlt')
    rwa [flattenMember_chain hm] at h
  obtain ⟨hlast, -⟩ := members_standFor hn hb hfaithful hselected
    (fun i _ => by rw [List.getElem?_append_right (by omega), Nat.add_assoc,
      Nat.add_sub_cancel_left, Nat.add_comm 1 i, List.getElem?_cons_succ]) hnext hright
  refine ⟨d, left, here, right, rfl, hchain hlt, hhere, hfirst, hlast, ?_⟩
  intro between here' hbetween hhere'
  rw [flatten_eq_gather, Passage.gather_between_ok (hquiet between hbetween _), hd]
  exact ⟨left, here', right, hleft, hhere', hright, rfl⟩

/-- A block, in the part of the tree at `b₀`, that what remains of this part stands in. -/
theorem flatten_parted {n : Node} {b : Position} (hn : root.at? b = some n) {first : Nat}
    {body : List Node} (hb : n.block? = some (first, body))
    (hselected : ∀ i < body.length, Selected root (b ++ [first + i])) {b₀ : Position} (hb₀ : b₀ <+: b)
    (hcover : ∀ r, b₀ <+: r → Remains root r → ∃ i < body.length, b ++ [first + i] <+: r)
    {values : Values} (ha : values.AgreesAt (Denotes root) root b) {j : Nat} {q : Position}
    (h : Node.ClauseIn clause body j q) (hmember : ∀ m ∈ body, MemberParted root clause m)
    {out : List Node} (hok : (flatten values.enter body).result = .ok out)
    (hplain : ∀ d ∈ out, PlainMember d) :
    ∃ out', (flatten values.enter (Node.withoutIn j q body)).result = .ok out' ∧
      Parted root b₀ (b ++ (first + j) :: q) out out' := by
  obtain ⟨before, m, after, rfl, rfl, -, hat, hcond, hcond'⟩ := h.exists_split
  obtain ⟨d, left, here, right, rfl, hd, hhere, hleft, hright, hexchange⟩ :=
    flatten_around hn hb hcond hselected ha hok
  have hlt : before.length < (before ++ m :: after).length := by simp
  have hm : root.at? (b ++ [first + before.length]) = some m := by
    rw [Node.at?_child hn, Node.block?_children hb hlt]
    simp
  have hkept : ∀ n ∈ m.kept q, n.condition?.isSome := by
    cases q with
    | nil => simp [Node.kept]
    | cons k q => simpa [Node.kept] using hcond'
  obtain ⟨here', hhere', hparted⟩ : ∃ here',
      (Passage.gather flattenMember d (m.kept q)).result = .ok here' ∧
      Parted root (b ++ [first + before.length]) (b ++ (first + before.length) :: q) here here' := by
    cases q with
    | nil => exact ⟨[], rfl, .all (memberFaithful root m _ d here hm (hselected _ hlt) hd hhere)⟩
    | cons k q =>
      obtain ⟨here', hhere', hparted⟩ := hmember m (by simp) _ (k :: q) d here hm (hselected _ hlt)
        hd hat (List.cons_ne_nil k q) hhere fun n hn => hplain n (by simp [hn])
      rw [List.append_assoc] at hparted
      exact ⟨here', Passage.gather_singleton_ok.mpr hhere', hparted⟩
  refine ⟨left ++ here' ++ right, ?_, hparted.among hb₀ hleft hright fun r hr hrem => ?_⟩
  · rw [Node.withoutIn_append]
    exact hexchange _ here' hkept hhere'
  · obtain ⟨i, hi, hpre⟩ := hcover r hr hrem
    exact ⟨i, by simpa [Nat.add_assoc, Nat.add_comm 1] using hi, hpre⟩

/-- The if-clause is below the body of a member whose condition holds. -/
theorem body_parted {n n' c : Node} {p : Position} (hn : root.at? p = some n) (hp : Selected root p)
    (hcond : n.condition? = some c) (hcond' : n'.condition? = some c) {first : Nat} {body : List Node}
    (hb : n.block? = some (first, body)) {j : Nat} {q : Position}
    (hb' : n'.block? = some (first, Node.withoutIn j q body)) {values : Values}
    (ha : values.AgreesAt (Denotes root) root p) {m : Mark}
    (hv : fold values c = .ok ⟨m, .bool true⟩) (h : Node.ClauseIn clause body j q)
    (hmember : ∀ m ∈ body, MemberParted root clause m) {out : List Node}
    (hok : (flatten values.enter body).result = .ok out) (hplain : ∀ d ∈ out, PlainMember d) :
    ∃ out', (flattenMember values n').result = .ok out' ∧
      Parted root p (p ++ (first + j) :: q) out out' := by
  have hsome : n.condition?.isSome := by rw [hcond]; rfl
  have htrue := denotes_condition ha hn hcond hv
  obtain ⟨out', hout', hparted⟩ := flatten_parted hn hb
    (fun i hi => .branchMember hp hn (.body hsome htrue hb hi)) (List.prefix_refl p)
    (fun r hr hrem => hrem.exists_inBody hp hn hsome htrue hb hr) ha h hmember hok hplain
  exact ⟨out', (MemberRun.body hcond' hv hb' hout').result, hparted⟩

/-- The if-clause is below the else-clause of a member whose condition does not hold. -/
theorem elseBody_parted {c : Node} {m em : Mark} {body ebody : List Node} {p : Position}
    (hn : root.at? p = some (.ifElse m c body em ebody)) (hp : Selected root p) {values : Values}
    (ha : values.AgreesAt (Denotes root) root p) {m' : Mark}
    (hv : fold values c = .ok ⟨m', .bool false⟩) {j : Nat} {q : Position}
    (h : Node.ClauseIn clause ebody j q) (hmember : ∀ m ∈ ebody, MemberParted root clause m)
    {out : List Node} (hok : (flatten values.enter ebody).result = .ok out)
    (hplain : ∀ d ∈ out, PlainMember d) :
    ∃ out', (flattenMember values (.ifElse m c body em (Node.withoutIn j q ebody))).result = .ok out' ∧
      Parted root p (p ++ (body.length + 1) :: j :: q) out out' := by
  have hfalse := denotes_condition ha hn rfl hv
  obtain ⟨out', hout', hparted⟩ := flatten_parted (Node.at?_elseClause hn) rfl
    (fun i hi => by rw [Nat.zero_add]; exact .branchMember hp hn (.elseBody hfalse hi))
    (List.prefix_append p _)
    (fun r hr hrem => by simpa only [Nat.zero_add] using hrem.exists_inElseBody hp hn hfalse hr)
    (ha.child (Node.not_directMember_elseClause hn)) h hmember hok hplain
  refine ⟨out', (MemberRun.elseBody hv hout').result, ?_⟩
  rwa [Nat.zero_add, List.append_assoc] at hparted

/-- The induction is on the size, like that of `memberFaithful`. -/
theorem memberParted {n : Node} (hw : n.isBodyMember = true) (hc : clause.condition?.isSome) :
    MemberParted root clause n := by
  induction hs : n.size using Nat.strongRecOn generalizing n with
  | ind size ih =>
    intro p q values out hn hp ha hat hq hok hplain
    cases q with
    | nil => exact absurd rfl hq
    | cons k q =>
      have hsmall : ∀ {body : List Node} {j : Nat} {q : Position}, Node.ClauseIn clause body j q →
          Node.sizeAll body < size → ∀ m ∈ body, MemberParted root clause m := by
        intro body j q h hlt m hm
        have hle := Node.size_le_of_mem hm
        exact ih m.size (by omega) (Node.areBodyMembers_iff.mp h.placed m hm) rfl
      have hstand := memberFaithful root n p values out hn hp ha hok
      have hdecided : n.condition?.isSome → out ≠ [n] := by
        rintro hsome rfl
        cases hplain n (List.mem_singleton.mpr rfl)
        cases hsome
      obtain ⟨n', hn', hbelow⟩ : ∃ n', n.without (k :: q) = n' ∧
          Node.ClauseBelow clause n (k :: q) n' := ⟨_, rfl, Node.clauseBelow_of_at? hw hc hat⟩
      obtain ⟨values', hrun⟩ : ∃ values', MemberRun values n out values' := ⟨_, memberRun_of_ok hok⟩
      rw [hn']
      cases hbelow with
      | @ifClause m c body j q h =>
        cases hrun with
        | body hcond hv hblock hout =>
          cases hcond
          cases hblock
          exact body_parted hn hp rfl rfl rfl rfl ha hv h (hsmall h (hs ▸ sizeAll_block_lt rfl)) hout
            hplain
        | nothing hv =>
          have hnone := hstand.not_wanted
          exact ⟨[], (MemberRun.nothing hv).result, .all_before hstand (List.prefix_append p _)
            fun r hr hrem => absurd ⟨hr, hrem⟩ (hnone r)⟩
        | undecided => exact absurd rfl (hdecided rfl)
      | @ifBody m c body em ebody j q h =>
        cases hrun with
        | body hcond hv hblock hout =>
          cases hcond
          cases hblock
          exact body_parted hn hp rfl rfl rfl rfl ha hv h (hsmall h (hs ▸ sizeAll_block_lt rfl)) hout
            hplain
        | elseBody hv hout =>
          refine ⟨out, (MemberRun.elseBody hv hout).result,
            .all_after hstand (List.prefix_append p _) fun r hr hrem => ?_⟩
          obtain ⟨i, -, hpre⟩ := hrem.exists_inElseBody hp hn (denotes_condition ha hn rfl hv) hr
          obtain ⟨b, hb, -⟩ := h.found
          have hj : j < body.length := (List.getElem?_eq_some_iff.mp hb).1
          exact endsBefore_of_siblings ⟨q, List.append_assoc p _ q⟩
            ((List.prefix_append _ [i]).trans hpre) (by omega)
        | undecided => exact absurd rfl (hdecided rfl)
      | @elseBody m c body em ebody j q h =>
        cases hrun with
        | body hcond hv hblock hout =>
          cases hcond
          cases hblock
          refine ⟨out, (MemberRun.body rfl hv rfl hout).result,
            .all_before hstand (List.prefix_append p _) fun r hr hrem => ?_⟩
          obtain ⟨i, hi, hpre⟩ := hrem.exists_inBody hp hn rfl (denotes_condition ha hn rfl hv) rfl hr
          exact endsBefore_of_siblings hpre ⟨j :: q, List.append_assoc p _ _⟩ (by omega)
        | elseBody hv hout =>
          have hlt : Node.sizeAll ebody < size := by
            rw [← hs, Node.size]
            omega
          exact elseBody_parted hn hp ha hv h (hsmall h hlt) hout hplain
        | undecided => exact absurd rfl (hdecided rfl)

end

theorem evaluateMember_rule_ok {values : Values} {m : Mark} {ss : List Selector}
    {body out : List Node} : (evaluateMember values (.rule m ss body)).result = .ok out ↔
      ∃ body', (flatten values.enter body).result = .ok body' ∧ out = [.rule m ss body'] := by
  simp only [evaluateMember, inScope_flatten]
  cases (flatten values.enter body).result <;> simp [eq_comm]

/-- A rule evaluates to one node. -/
theorem exists_of_evaluateMember {values : Values} {n : Node} (hn : n.isRule = true) {out : List Node}
    (h : (evaluateMember values n).result = .ok out) : ∃ r, out = [r] := by
  obtain ⟨values', hrun⟩ : ∃ values', SheetMemberRun values n out values' :=
    ⟨_, sheetMemberRun_of_ok h⟩
  cases hrun with
  | assignment => cases hn
  | rule => exact ⟨_, rfl⟩

theorem rule_parted {root clause : Node} {k : Nat} {m : Mark} {ss : List Selector} {body : List Node}
    (hn : root.at? [k] = some (.rule m ss body)) {values : Values}
    (ha : values.AgreesAt (Denotes root) root [k]) {j : Nat} {q : Position}
    (h : Node.ClauseIn clause body j q) {out : List Node}
    (hok : (flatten values.enter body).result = .ok out) (hplain : ∀ d ∈ out, PlainMember d) :
    ∃ out', (flatten values.enter (Node.withoutIn j q body)).result = .ok out' ∧
      Parted root [k] (k :: j :: q) out out' := by
  obtain ⟨out', hout', hparted⟩ := flatten_parted hn rfl
    (fun i hi => by rw [Nat.zero_add]; exact .ruleMember hn hi) (List.prefix_refl [k])
    (fun r hr hrem => by simpa only [Nat.zero_add] using hrem.selected.exists_ruleMember hr hn)
    ha h (fun d hd => memberParted (Node.areBodyMembers_iff.mp h.placed d hd) h.isClause) hok hplain
  refine ⟨out', hout', ?_⟩
  rwa [Nat.zero_add] at hparted

section

variable {s : Sheet} {before between after : List Node}

theorem evaluate_ok_iff {out : List Node} :
    (s.evaluate.result = .ok () ∧ s.evaluate.tree = ⟨s.mark, out⟩) ↔
      (evaluateMembers (Chain.empty .snapshot).enter s.members).result = .ok out := by
  refine ⟨fun h => ?_, evaluate_of_members⟩
  obtain ⟨out', hout', htree⟩ := members_of_evaluate h.1
  obtain rfl : out' = out := congrArg Sheet.members (htree.symm.trans h.2)
  exact hout'

/-- The chain that the members of a sheet leave. -/
def chainAfter (members : List Node) : Values :=
  (Passage.gather evaluateMember (Chain.empty .snapshot).enter members).chain

/-- Members in between that leave the chain as it was make no difference to those after them. -/
theorem evaluate_between_ok (hs : s.members = before ++ between ++ after)
    (hquiet : ∀ n ∈ between, n.isRule = true) {out : List Node} :
    (s.evaluate.result = .ok () ∧ s.evaluate.tree = ⟨s.mark, out⟩) ↔ ∃ first here last,
      (Passage.gather evaluateMember (Chain.empty .snapshot).enter before).result = .ok first ∧
      (Passage.gather evaluateMember (chainAfter before) between).result = .ok here ∧
      (Passage.gather evaluateMember (chainAfter before) after).result = .ok last ∧
      out = first ++ here ++ last := by
  rw [evaluate_ok_iff, evaluateMembers_eq_gather, hs]
  exact Passage.gather_between_ok
    (Passage.gather_quiet (fun n hn => evaluateMember_chain (hquiet n hn)) _)

/-- Of a sheet there is as much left in front of a member as there are rules in front of it. -/
theorem length_of_before {rest first : List Node} (hs : s.members = before ++ rest)
    (h : (Passage.gather evaluateMember (Chain.empty .snapshot).enter before).result = .ok first) :
    s.rulesBefore before.length = first.length := by
  rw [← evaluateMembers_eq_gather] at h
  rw [Sheet.rulesBefore, hs, List.take_left, (evaluateMembers_rules h).2]

/-- A rule of a sheet that evaluates, with what comes of the members around it. -/
theorem evaluate_at_rule (h : s.evaluate.result = .ok ()) {r : Node}
    (hs : s.members = before ++ r :: after) (hr : r.isRule = true) :
    ∃ first r' last,
      (Passage.gather evaluateMember (Chain.empty .snapshot).enter before).result = .ok first ∧
      (evaluateMember (chainAfter before) r).result = .ok [r'] ∧
      (Passage.gather evaluateMember (chainAfter before) after).result = .ok last ∧
      s.evaluate.tree = ⟨s.mark, first ++ r' :: last⟩ ∧
      s.rulesBefore before.length = first.length := by
  rw [← List.singleton_append, ← List.append_assoc] at hs
  obtain ⟨out, -, htree⟩ := members_of_evaluate h
  obtain ⟨first, here, last, hfirst, hhere, hlast, rfl⟩ :=
    (evaluate_between_ok hs (by simpa using hr)).mp ⟨h, htree⟩
  rw [Passage.gather_singleton_ok] at hhere
  obtain ⟨r', rfl⟩ := exists_of_evaluateMember hr hhere
  rw [List.append_assoc] at hs htree
  exact ⟨first, r', last, hfirst, hhere, hlast, htree, length_of_before hs hfirst⟩

theorem evaluate_without_rule (h : s.evaluate.result = .ok ()) {k : Nat} {r : Node}
    (hn : s.members[k]? = some r) (hr : r.isRule = true) :
    (s.without [k]).evaluate.result = .ok () ∧
      (s.without [k]).evaluate.tree = s.evaluate.tree.without [s.rulesBefore k] := by
  obtain ⟨before, after, hs, rfl⟩ := Node.exists_split hn
  obtain ⟨first, r', last, hfirst, -, hlast, htree, hlen⟩ := evaluate_at_rule h hs hr
  have hs' : (s.without [before.length]).members = before ++ [] ++ after := by
    rw [Sheet.without, hs, Node.withoutIn_append, Node.kept]
  obtain ⟨hok, htree'⟩ := (evaluate_between_ok hs' (by simp)).mpr
    ⟨first, [], last, hfirst, rfl, hlast, rfl⟩
  refine ⟨hok, ?_⟩
  have hleft := Node.withoutIn_append first last r' []
  rw [htree', htree, hlen]
  simp only [Sheet.without, hleft, Node.kept]

/-- Two rules next to each other come to what they did, the other way round. -/
theorem evaluate_swap (h : s.evaluate.result = .ok ()) {k : Nat} {a b : Node}
    (ha : s.members[k]? = some a) (hb : s.members[k + 1]? = some b) (hra : a.isRule = true)
    (hrb : b.isRule = true) :
    (s.swap k).evaluate.result = .ok () ∧
      (s.swap k).evaluate.tree = s.evaluate.tree.swap (s.rulesBefore k) := by
  obtain ⟨before, after, hs, rfl⟩ := Node.exists_split_pair ha hb
  obtain ⟨first, a', rest, hfirst, ha', hrest, htree, hlen⟩ := evaluate_at_rule h hs hra
  rw [Passage.gather, Passage.andThen_result_ok] at hrest
  obtain ⟨out, hb', hlast⟩ := hrest
  obtain ⟨b', rfl⟩ := exists_of_evaluateMember hrb hb'
  rw [evaluateMember_chain hrb] at hlast
  obtain ⟨last, hafter, rfl⟩ := Passage.mapResult_ok.mp hlast
  have hs' : (s.swap before.length).members = before ++ [b, a] ++ after := by
    rw [Sheet.swap, hs, Node.swapAt_append]
    simp
  have hpair : (Passage.gather evaluateMember (chainAfter before) [b, a]).result = .ok [b', a'] := by
    rw [← List.singleton_append, Passage.gather_append_ok]
    refine ⟨[b'], [a'], Passage.gather_singleton_ok.mpr hb', ?_, rfl⟩
    rw [Passage.gather_quiet (by simpa using evaluateMember_chain hrb)]
    exact Passage.gather_singleton_ok.mpr ha'
  obtain ⟨hok, htree'⟩ := (evaluate_between_ok hs' (by simp [hra, hrb])).mpr
    ⟨first, [b', a'], last, hfirst, hpair, hafter, rfl⟩
  have hturned := Node.swapAt_append first last a' b'
  refine ⟨hok, ?_⟩
  rw [htree', htree, hlen]
  simp only [Sheet.swap, hturned, List.append_assoc, List.cons_append, List.nil_append]

theorem agreesAt_member {rest first : List Node} (hs : s.members = before ++ rest) (hne : rest ≠ [])
    (h : (Passage.gather evaluateMember (Chain.empty .snapshot).enter before).result = .ok first) :
    (chainAfter before).AgreesAt (Denotes s.node) s.node [before.length] := by
  have hpos := List.length_pos_iff.mpr hne
  refine Passage.gather_keeps (fun k c => c.AgreesAt (Denotes s.node) s.node [k])
    (fun k n c here hn hinv hres => ?_) (agreesAt_firstMember s) h
  have hk : k < before.length := (List.getElem?_eq_some_iff.mp hn).1
  refine agreesAt_nextMember ?_ hinv hres ?_
  · rw [hs, List.getElem?_append_left hk, hn]
  · rw [hs, List.length_append]
    omega

/-- Without an if-clause only the rule that it stood in comes to something else, and that without what
came of the if-clause. -/
theorem evaluate_without_clause (h : s.evaluate.result = .ok ()) (hplain : s.evaluate.tree.IsPlain)
    (hw : s.isWellPlaced = true) {clause : Node} {p : Position} (hat : s.node.at? p = some clause)
    (hc : clause.condition?.isSome) :
    (s.without p).evaluate.result = .ok () ∧
      ∃ k q m ss source body body', p = k :: q ∧ s.members[k]? = some (.rule m ss source) ∧
        s.evaluate.tree.members[s.rulesBefore k]? = some (.rule m ss body) ∧
        (s.without p).evaluate.tree = ⟨s.evaluate.tree.mark,
          s.evaluate.tree.members.set (s.rulesBefore k) (.rule m ss body')⟩ ∧
        Parted s.node [k] p body body' := by
  obtain ⟨k, j, q, m, ss, source, rfl, hn, hclause⟩ := s.exists_rule_of_at? hw hc hat
  obtain ⟨before, after, hs, rfl⟩ := Node.exists_split hn
  obtain ⟨first, r, last, hfirst, hrule, hlast, htree, hlen⟩ := evaluate_at_rule h hs rfl
  obtain ⟨body, hok, hr⟩ := evaluateMember_rule_ok.mp hrule
  obtain rfl : r = .rule m ss body := List.singleton_inj.mp hr
  have hplainBody : ∀ d ∈ body, PlainMember d := by
    have hmem : Node.rule m ss body ∈ s.evaluate.tree.members := by simp [htree]
    cases hplain _ hmem with
    | rule _ _ hd => exact hd
  obtain ⟨body', hok', hparted⟩ := rule_parted (s.at?_member hn)
    (agreesAt_member hs (by simp) hfirst) hclause hok hplainBody
  have hs' : (s.without (before.length :: j :: q)).members =
      before ++ [.rule m ss (Node.withoutIn j q source)] ++ after := by
    rw [Sheet.without, hs, Node.withoutIn_append, Node.kept, Node.without_rule]
  obtain ⟨hresult, htree'⟩ := (evaluate_between_ok hs' (by simp [Node.isRule])).mpr
    ⟨first, [.rule m ss body'], last, hfirst,
      Passage.gather_singleton_ok.mpr (evaluateMember_rule_ok.mpr ⟨body', hok', rfl⟩), hlast, rfl⟩
  refine ⟨hresult, before.length, j :: q, m, ss, source, body, body', rfl, hn, ?_, ?_, hparted⟩
  · simp [htree, hlen]
  · rw [htree', htree, hlen]
    simp [Sheet.without]

end

end Evaluation

/-- Without rule `k` the sheet is checked and evaluated as with it, but for the rule. -/
structure Sheet.RuleIsolated (table : PropertyTable) (s : Sheet) (k : Nat) : Prop where
  checked : ((s.without [k]).check table).result = .ok () ∧
    ((s.without [k]).check table).tree = (s.check table).tree.without [k]
  evaluated : (s.check table).tree.hasErrors = false →
    s.evaluate.result = .ok () ∧ (s.without [k]).evaluate.result = .ok () ∧
      (s.without [k]).evaluate.tree = s.evaluate.tree.without [s.rulesBefore k]

/-- Without the if-clause at `p` every other node is left with the slot that it has with it, every other
rule evaluates to the same, and the rule that it stands in to the same without what came of it. -/
structure Sheet.ClauseIsolated (table : PropertyTable) (s : Sheet) (p : Position) : Prop where
  checked : ((s.without p).check table).result = .ok () ∧
    ((s.without p).check table).tree = (s.check table).tree.without p
  evaluated : (s.check table).tree.hasErrors = false →
    s.evaluate.result = .ok () ∧ (s.without p).evaluate.result = .ok () ∧
      ∃ k q m ss source body body', p = k :: q ∧ s.members[k]? = some (.rule m ss source) ∧
        s.evaluate.tree.members[s.rulesBefore k]? = some (.rule m ss body) ∧
        (s.without p).evaluate.tree = ⟨s.evaluate.tree.mark,
          s.evaluate.tree.members.set (s.rulesBefore k) (.rule m ss body')⟩ ∧
        Evaluation.Parted s.node [k] p body body'

/-- With member `k` and the next one the other way round, what they come to changes places. -/
structure Sheet.SwapIsolated (table : PropertyTable) (s : Sheet) (k : Nat) : Prop where
  checked : ((s.swap k).check table).result = .ok () ∧
    ((s.swap k).check table).tree = (s.check table).tree.swap k
  evaluated : s.evaluate.result = .ok () → (s.swap k).evaluate.result = .ok () ∧
    (s.swap k).evaluate.tree = s.evaluate.tree.swap (s.rulesBefore k)

/-- What is bound in a rule or in a branch of an if-clause is not noticed outside of it, in neither pass:
any rule and any if-clause may be left out, and rules next to each other may change places. -/
theorem scopes_isolated (table : PropertyTable) (s : Sheet) (hw : s.isWellPlaced = true) :
    (∀ k m ss body, s.members[k]? = some (.rule m ss body) → s.RuleIsolated table k) ∧
      (∀ p clause, s.node.at? p = some clause → clause.condition?.isSome →
        s.ClauseIsolated table p) ∧
      ∀ k a b, s.members[k]? = some a → s.members[k + 1]? = some b → a.isRule = true →
        b.isRule = true → s.SwapIsolated table k := by
  refine ⟨fun k m ss body hn => ⟨s.check_without_rule hw hn rfl, fun hclean => ?_⟩,
    fun p clause hat hc => ⟨s.check_without_clause hw hat hc, fun hclean => ?_⟩,
    fun k a b ha hb hra hrb => ⟨s.check_swap hw ha hb hra hrb, fun hok => ?_⟩⟩
  · obtain ⟨hok, -⟩ := Evaluation.sheet_sound hw hclean
    exact ⟨hok, Evaluation.evaluate_without_rule hok hn rfl⟩
  · obtain ⟨hok, hsurvive⟩ := Evaluation.sheet_sound hw hclean
    have hplain : s.evaluate.tree.IsPlain := Evaluation.plainRule_of_rulesSurvive hsurvive
    exact ⟨hok, Evaluation.evaluate_without_clause hok hplain hw hat hc⟩
  · exact Evaluation.evaluate_swap hok ha hb hra hrb

/-- A name of the sheet that a branch binds again and a name that only the branch binds, and a rule behind
it with an if-clause of its own. -/
theorem scopes_isolated_nested :
    let pixels : Int → Node := fun n => .literal none (.pixel n)
    let width : Node → Node := .declaration none "width"
    let clause : Node := .ifElse none (.reference none "A")
      [.assignment none "X" (pixels 2), .ifClause none (.literal none (.bool true))
        [.assignment none "Y" (.reference none "X"), width (.reference none "Y")],
        width (.reference none "X")] none [width (pixels 9)]
    let s : Sheet := ⟨none, [.assignment none "A" (.literal none (.bool true)),
      .assignment none "X" (pixels 1),
      .rule none [.tag "p"] [width (pixels 7), clause, width (.reference none "X")],
      .rule none [.tag "a"] [.ifClause none (.reference none "A") [width (.reference none "X")]]]⟩
    s.isWellPlaced = true ∧ (s.check .builtin).tree.hasErrors = false ∧
      s.evaluate.tree.members = [.rule none [.tag "p"]
          [width (pixels 7), width (pixels 2), width (pixels 2), width (pixels 1)],
        .rule none [.tag "a"] [width (pixels 1)]] ∧
      (s.without [2, 1, 2]).evaluate.tree.members = [.rule none [.tag "p"]
          [width (pixels 7), width (pixels 2), width (pixels 1)],
        .rule none [.tag "a"] [width (pixels 1)]] ∧
      s.RuleIsolated .builtin 2 ∧ s.ClauseIsolated .builtin [2, 1, 2] ∧ s.SwapIsolated .builtin 2 := by
  intro pixels width clause s
  have hw : s.isWellPlaced = true := by decide +kernel
  have htree : (s.check .builtin).tree = s := by decide +kernel
  have hclean : (s.check .builtin).tree.hasErrors = false := by
    rw [htree]
    simp [s, clause, width, pixels, Sheet.hasErrors, Sheet.node, Node.hasErrors, Node.walk,
      Node.visit, Node.children, Node.mark]
  obtain ⟨hrule, hclause, hswap⟩ := scopes_isolated .builtin s hw
  exact ⟨hw, hclean, by decide +kernel, by decide +kernel, hrule 2 _ _ _ rfl,
    hclause [2, 1, 2] _ rfl rfl, hswap 2 _ _ rfl rfl rfl rfl⟩

end StyleLang
