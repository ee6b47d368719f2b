import StyleLang.Proofs.Evaluation.Pass
import StyleLang.Proofs.Evaluation.Reference
import StyleLang.Proofs.Scope.Agreement
import StyleLang.Proofs.Tree.Walk
import StyleLang.Proofs.Typing.Arrival

/-!
# Evaluation against the reference semantics

Where evaluation ends normally, every rule is left with what the reference semantics leaves of it. The
chain that evaluation comes to a member with agrees with the member's position, so what is folded there is
what is denoted there. Nothing is asked of the tree but that its evaluation ends normally, and nothing is
said of evaluations that do not.
-/

namespace StyleLang.Evaluation

open Position

theorem fold_operation_ok {values : Values} {m : Mark} {op : Operator} {l r : Node} {c : Constant} :
    fold values (.operation m op l r) = .ok c ↔ ∃ a b v, fold values l = .ok a ∧
      fold values r = .ok b ∧ combine? op a.value b.value = some v ∧ c = ⟨none, v⟩ := by
  cases hl : fold values l with
  | error f => simp [fold, hl]
  | ok a =>
    cases hr : fold values r with
    | error f => simp [fold, hl, hr]
    | ok b =>
      simp only [fold, hl, hr, Constant.node, combine]
      cases hv : combine? op a.value b.value <;> simp [Except.map, hv, eq_comm]

theorem bindValue_ok {τ : Type} {tree : τ} {values : Values} {x : String} {e : Node}
    (h : (bindValue tree values x e).result = .ok ()) :
    ∃ c, fold values e = .ok c ∧ values.bind x c = .ok (bindValue tree values x e).chain := by
  unfold bindValue at h ⊢
  split at h
  · cases h
  · rename_i c hc
    cases hb : values.bind x c with
    | error f => simp [Passage.bind, hb, Passage.stop] at h
    | ok values' =>
      refine ⟨c, hc, ?_⟩
      rw [Passage.chain_bind hb, hb]

/-- What a member of a body comes to when it is flattened to the end, and the chain it leaves. -/
inductive MemberRun (values : Values) : Node → List Node → Values → Prop
  | declaration {m p e c} (hc : fold values e = .ok c) :
      MemberRun values (.declaration m p e) [.declaration m p c.node] values
  | assignment {m x e c values'} (hc : fold values e = .ok c) (hb : values.bind x c = .ok values') :
      MemberRun values (.assignment m x e) [] values'
  | body {n c m first body out} (hn : n.condition? = some c)
      (hc : fold values c = .ok ⟨m, .bool true⟩) (hb : n.block? = some (first, body))
      (hout : (flatten values.enter body).result = .ok out) : MemberRun values n out values
  | nothing {m c body m'} (hc : fold values c = .ok ⟨m', .bool false⟩) :
      MemberRun values (.ifClause m c body) [] values
  | elseBody {m c body em ebody m' out} (hc : fold values c = .ok ⟨m', .bool false⟩)
      (hout : (flatten values.enter ebody).result = .ok out) :
      MemberRun values (.ifElse m c body em ebody) out values
  | undecided {n c k} (hn : n.condition? = some c) (hc : fold values c = .ok k)
      (hb : ∀ b, k.value ≠ .bool b) : MemberRun values n [n] values

theorem value_ne_bool {k : Constant} (htrue : ∀ m, k = ⟨m, .bool true⟩ → False)
    (hfalse : ∀ m, k = ⟨m, .bool false⟩ → False) (b : Bool) : k.value ≠ .bool b := by
  intro hv
  obtain ⟨m, v⟩ := k
  obtain rfl : v = .bool b := hv
  cases b with
  | true => exact htrue m rfl
  | false => exact hfalse m rfl

theorem memberRun_of_ok {values : Values} {n : Node} {out : List Node}
    (h : (flattenMember values n).result = .ok out) :
    MemberRun values n out (flattenMember values n).chain := by
  cases n with
  | literal | reference | operation | elseClause | rule | sheet | foreign => cases h
  | declaration m p e =>
    simp only [flattenMember] at h ⊢
    split at h
    · cases h
    · rename_i c hc
      cases h
      exact .declaration hc
  | assignment m x e =>
    simp only [flattenMember, Passage.mapResult] at h ⊢
    cases hr : (bindValue (Node.assignment m x e) values x e).result with
    | error f =>
      rw [hr] at h
      cases h
    | ok u =>
      obtain ⟨c, hc, hb⟩ := bindValue_ok hr
      rw [hr] at h
      cases h
      exact .assignment hc hb
  | ifClause m c body =>
    simp only [flattenMember, inScope_flatten] at h ⊢
    split at h
    · cases h
    · rename_i hc
      exact .body rfl hc rfl h
    · rename_i hc
      rw [Passage.inScope_eq (.refl values.enter)] at h ⊢
      cases h
      exact .nothing hc
    · rename_i htrue hfalse hc
      cases h
      exact .undecided rfl hc (value_ne_bool htrue hfalse)
  | ifElse m c body em ebody =>
    simp only [flattenMember, inScope_flatten] at h ⊢
    split at h
    · cases h
    · rename_i hc
      exact .body rfl hc rfl h
    · rename_i hc
      exact .elseBody hc h
    · rename_i htrue hfalse hc
      cases h
      exact .undecided rfl hc (value_ne_bool htrue hfalse)

theorem MemberRun.result {values values' : Values} {n : Node} {out : List Node}
    (h : MemberRun values n out values') : (flattenMember values n).result = .ok out := by
  cases h with
  | declaration hc => simp [flattenMember, hc, Passage.done]
  | assignment hc hb => simp [flattenMember, bindValue, hc, Passage.chain_bind hb, Passage.mapResult,
      Except.map]
  | body hn hc hb hout =>
    cases n with
    | ifClause | ifElse =>
      cases hn
      cases hb
      simpa [flattenMember, hc, inScope_flatten, Passage.mapTree] using hout
    | literal | reference | operation | declaration | assignment | elseClause | rule | sheet
    | foreign => cases hn
  | nothing hc =>
    simp only [flattenMember, hc]
    rw [Passage.inScope_eq (.refl values.enter)]
    rfl
  | elseBody hc hout =>
    simpa [flattenMember, hc, inScope_flatten, Passage.mapTree] using hout
  | @undecided n c k hn hc hb =>
    obtain ⟨m, v⟩ := k
    cases n with
    | ifClause | ifElse =>
      cases hn
      cases v with
      | bool b => exact absurd rfl (hb b)
      | pixel | percentage | scalar | color => simp [flattenMember, hc, Passage.done]
    | literal | reference | operation | declaration | assignment | elseClause | rule | sheet
    | foreign => cases hn

/-- What is folded with a chain that agrees with a position is what is denoted there. -/
theorem denotes_of_fold {root : Node} {p : Position} {values : Values}
    (ha : values.AgreesAt (Denotes root) root p) {e : Node} (he : root.at? p = some e) {c : Constant}
    (hc : fold values e = .ok c) : Denotes root p c := by
  cases e with
  | literal m v =>
    cases hc
    exact .literal he
  | reference m x =>
    cases hx : values.resolve x with
    | none => simp [fold, hx] at hc
    | some c' =>
      simp only [fold, hx] at hc
      cases hc
      obtain ⟨q, hq, hd⟩ := ha.bound hx
      exact .reference he hq hd
  | operation m op l r =>
    obtain ⟨a, b, v, hl, hr, hv, rfl⟩ := fold_operation_ok.mp hc
    have hleft := denotes_of_fold (ha.child (Node.not_directMember_expression he rfl))
      (Node.at?_child he 0) hl
    have hright := denotes_of_fold (ha.child (Node.not_directMember_expression he rfl))
      (Node.at?_child he 1) hr
    exact .operation he hleft hright (combine?_iff.mp hv)
  | declaration | assignment | ifClause | ifElse | elseClause | rule | sheet | foreign => cases hc

section

variable {root : Node} {p : Position} {values : Values}

/-- The expression of a node is folded with the chain that the node is come to with. -/
theorem denotes_expression (ha : values.AgreesAt (Denotes root) root p) {n e : Node}
    (hn : root.at? p = some n) {k : Nat} (he : n.expressions[k]? = some e) {c : Constant}
    (hc : fold values e = .ok c) : Denotes root (p ++ [k]) c := by
  refine denotes_of_fold (ha.child (Node.not_directMember_expression hn he)) ?_ hc
  rw [Node.at?_child hn, Node.children_of_expressions he]

theorem denotes_condition (ha : values.AgreesAt (Denotes root) root p) {n e : Node}
    (hn : root.at? p = some n) (he : n.condition? = some e) {c : Constant}
    (hc : fold values e = .ok c) : Denotes root (p ++ [0]) c := by
  refine denotes_expression ha hn ?_ hc
  cases n <;> simp_all [Node.condition?, Node.expressions]

/-- Past a member that was flattened to the end, the chain agrees with the next position. -/
theorem MemberRun.agreesAt_next {n : Node} {out : List Node} {values' : Values}
    (h : MemberRun values n out values') {k : Nat}
    (ha : values.AgreesAt (Denotes root) root (p ++ [k])) (hn : root.at? (p ++ [k]) = some n)
    (hk : root.DirectMember p k) (hk' : root.DirectMember p (k + 1)) :
    values'.AgreesAt (Denotes root) root (p ++ [k + 1]) := by
  cases h with
  | assignment hc hb => exact ha.next_assignment hn hk hk' (denotes_expression ha hn rfl hc) hb
  | declaration | nothing | elseBody => exact ha.next_other hn (by simp) hk hk'
  | body hcond | undecided hcond =>
    refine ha.next_other hn ?_ hk hk'
    rintro m x e rfl
    cases hcond

end

/-- If what each member comes to stands for the positions that are wanted of it, what the members come to
in turn stands for all of them. -/
theorem standFor_gather {collect : Values → Node → Passage Constant Node (List Node)}
    {becomes : Position → Node → Prop} {members : List Node} {values : Values} {out : List Node}
    (inv : Nat → Values → Prop) (wanted : Nat → Position → Prop)
    (hstep : ∀ k n c here, members[k]? = some n → inv k c → (collect c n).result = .ok here →
      StandFor becomes (wanted k) here ∧ inv (k + 1) (collect c n).chain)
    (hord : ∀ i j q q', i < j → wanted i q → wanted j q' → EndsBefore q q') (start : inv 0 values)
    (hok : (Passage.gather collect values members).result = .ok out) :
    StandFor becomes (fun q => ∃ i < members.length, wanted i q) out := by
  induction members generalizing values out inv wanted with
  | nil =>
    cases hok
    exact .nil (by simp)
  | cons n ns ih =>
    rw [Passage.gather, Passage.andThen_result_ok] at hok
    obtain ⟨here, hhere, hrest⟩ := hok
    obtain ⟨hfirst, hinv⟩ := hstep 0 n values here rfl start hhere
    simp only [Passage.mapResult] at hrest
    cases hr : (Passage.gather collect (collect values n).chain ns).result with
    | error f =>
      rw [hr] at hrest
      cases hrest
    | ok others =>
      rw [hr] at hrest
      cases hrest
      have hothers := ih (fun k => inv (k + 1)) (fun k => wanted (k + 1))
        (fun k m c out hm => hstep (k + 1) m c out hm)
        (fun i j q q' hij => hord (i + 1) (j + 1) q q' (by omega)) hinv hr
      refine (hfirst.append hothers ?_).congr fun q => ?_
      · intro q q' hq hq'
        obtain ⟨i, -, hi⟩ := hq'
        exact hord 0 (i + 1) q q' (by omega) hq hi
      · constructor
        · intro h
          rcases h with h | ⟨i, hlt, hi⟩
          · exact ⟨0, by simp, h⟩
          · exact ⟨i + 1, by simpa using hlt, hi⟩
        · intro h
          obtain ⟨i, hlt, hi⟩ := h
          cases i with
          | zero => exact Or.inl hi
          | succ i => exact Or.inr ⟨i, by simpa using hlt, hi⟩

/-- What a member of a body comes to stands for what remains of it. -/
def MemberFaithful (root n : Node) : Prop :=
  ∀ p values out, root.at? p = some n → Selected root p →
    values.AgreesAt (Denotes root) root p → (flattenMember values n).result = .ok out →
      StandFor (Becomes root) (fun q => p <+: q ∧ Remains root q) out

theorem directMember_of_lt {root n : Node} {p : Position} (hn : root.at? p = some n) {first : Nat}
    {members : List Node} (hb : n.block? = some (first, members)) {k : Nat} (hk : k < members.length) :
    root.DirectMember p (first + k) :=
  ⟨n, first, members, hn, hb, by omega, by omega⟩

/-- Members of a block that stand next to each other, from number `k` on, if all of the block's members
are selected: what they come to, and the chain that they leave to the next one. -/
theorem members_standFor {root n : Node} {p : Position} (hn : root.at? p = some n) {first : Nat}
    {body : List Node} (hb : n.block? = some (first, body))
    (hmember : ∀ m ∈ body, MemberFaithful root m)
    (hselected : ∀ i < body.length, Selected root (p ++ [first + i])) {k : Nat} {ms : List Node}
    (hms : ∀ i < ms.length, ms[i]? = body[k + i]?) {values : Values}
    (ha : k < body.length → values.AgreesAt (Denotes root) root (p ++ [first + k])) {out : List Node}
    (hok : (Passage.gather flattenMember values ms).result = .ok out) :
    StandFor (Becomes root)
        (fun q => ∃ i < ms.length, p ++ [first + (k + i)] <+: q ∧ Remains root q) out ∧
      (k + ms.length < body.length → (Passage.gather flattenMember values ms).chain.AgreesAt
        (Denotes root) root (p ++ [first + (k + ms.length)])) := by
  -- After the last member of the block there is no next position to agree with.
  let inv : Nat → Values → Prop := fun i c =>
    k + i < body.length → c.AgreesAt (Denotes root) root (p ++ [first + (k + i)])
  have hmem : ∀ {i m}, ms[i]? = some m → body[k + i]? = some m := fun hm =>
    (hms _ (List.getElem?_eq_some_iff.mp hm).1).symm.trans hm
  have hat : ∀ {i m}, ms[i]? = some m → root.at? (p ++ [first + (k + i)]) = some m := by
    intro i m hm
    have hbody := hmem hm
    rw [Node.at?_child hn, Node.block?_children hb (List.getElem?_eq_some_iff.mp hbody).1, hbody]
  have hkeep : ∀ i m c here, ms[i]? = some m → inv i c →
      (flattenMember c m).result = .ok here → inv (i + 1) (flattenMember c m).chain := by
    intro i m c here hm hinv hres hlt
    have hi := (List.getElem?_eq_some_iff.mp (hmem hm)).1
    exact (memberRun_of_ok hres).agreesAt_next (hinv hi) (hat hm) (directMember_of_lt hn hb hi)
      (directMember_of_lt hn hb hlt)
  refine ⟨standFor_gather inv (fun i q => p ++ [first + (k + i)] <+: q ∧ Remains root q) ?_ ?_ ha hok,
    Passage.gather_keeps inv hkeep ha hok⟩
  · intro i m c here hm hinv hres
    have hbody := hmem hm
    have hi := (List.getElem?_eq_some_iff.mp hbody).1
    exact ⟨hmember m (List.mem_of_getElem? hbody) _ _ _ (hat hm) (hselected _ hi) (hinv hi) hres,
      hkeep i m c here hm hinv hres⟩
  · intro i j q q' hij hq hq'
    exact endsBefore_of_siblings hq.1 hq'.1 (by omega)

/-- The members of a block that are all selected, in a scope of their own. -/
theorem flatten_standFor {root n : Node} {p : Position} (hn : root.at? p = some n) {first : Nat}
    {body : List Node} (hb : n.block? = some (first, body))
    (hmember : ∀ m ∈ body, MemberFaithful root m)
    (hselected : ∀ i < body.length, Selected root (p ++ [first + i])) {values : Values}
    (ha : values.AgreesAt (Denotes root) root p) {out : List Node}
    (hok : (flatten values.enter body).result = .ok out) :
    StandFor (Becomes root)
      (fun q => ∃ i < body.length, p ++ [first + i] <+: q ∧ Remains root q) out := by
  rw [flatten_eq_gather] at hok
  have h := (members_standFor hn hb hmember hselected (k := 0) (by simp) (fun _ => ha.first hn hb) hok).1
  simpa only [Nat.zero_add] using h

theorem Remains.selected {root : Node} {q : Position} (h : Remains root q) : Selected root q := by
  cases h with
  | declaration hq | undecided hq => exact hq

/-- What remains of an if-clause with a decided condition stands below a member of its branch. -/
theorem Remains.exists_inBranch {root n : Node} {p q : Position} (h : Remains root q)
    (hp : Selected root p) (hn : root.at? p = some n) (hc : n.condition?.isSome) {m : Mark} {b : Bool}
    (hv : Denotes root (p ++ [0]) ⟨m, .bool b⟩) (hpq : p <+: q) :
    ∃ r, InBranch root p n r ∧ r <+: q := by
  refine h.selected.exists_inBranch hp hpq ?_ hn ?_
  · rintro rfl
    cases h with
    | declaration hq hn' =>
      obtain rfl := Option.some.inj (hn.symm.trans hn')
      cases hc
    | undecided hq hn' hc' hb => exact hb m b hv
  · rintro m' body rfl
    cases hc

theorem Remains.exists_inBody {root n : Node} {p q : Position} (h : Remains root q)
    (hp : Selected root p) (hn : root.at? p = some n) (hc : n.condition?.isSome) {m : Mark}
    (hv : Denotes root (p ++ [0]) ⟨m, .bool true⟩) {first : Nat} {body : List Node}
    (hb : n.block? = some (first, body)) (hpq : p <+: q) :
    ∃ i < body.length, p ++ [first + i] <+: q := by
  obtain ⟨r, hr, hrq⟩ := h.exists_inBranch hp hn hc hv hpq
  cases hr with
  | body _ _ hb' hi =>
    rw [hb] at hb'
    cases hb'
    exact ⟨_, hi, hrq⟩
  | elseBody hfalse => cases hv.unique hfalse

theorem Remains.exists_inElseBody {root c : Node} {p q : Position} {m em : Mark}
    {body ebody : List Node} (h : Remains root q) (hp : Selected root p)
    (hn : root.at? p = some (.ifElse m c body em ebody)) {m' : Mark}
    (hv : Denotes root (p ++ [0]) ⟨m', .bool false⟩) (hpq : p <+: q) :
    ∃ i < ebody.length, p ++ [body.length + 1] ++ [i] <+: q := by
  obtain ⟨r, hr, hrq⟩ := h.exists_inBranch hp hn rfl hv hpq
  cases hr with
  | body _ htrue => cases hv.unique htrue
  | elseBody _ hi => exact ⟨_, hi, hrq⟩

/-- Of a member without a branch nothing remains but the member itself. -/
theorem Remains.eq_of_no_branch {root n : Node} {p q : Position} (h : Remains root q)
    (hp : Selected root p) (hn : root.at? p = some n) (hpq : p <+: q)
    (hbranch : ∀ r, ¬ InBranch root p n r) (helse : ∀ m body, n ≠ .elseClause m body) : q = p := by
  by_contra hne
  obtain ⟨r, hr, -⟩ := h.selected.exists_inBranch hp hpq (Ne.symm hne) hn helse
  exact hbranch r hr

theorem not_inBranch_of_condition {root n : Node} {p : Position} (h : n.condition? = none)
    (r : Position) : ¬ InBranch root p n r := by
  intro hr
  cases hr with
  | body hc => simp [h] at hc
  | elseBody => cases h

theorem sizeAll_block_lt {n : Node} {first : Nat} {body : List Node}
    (h : n.block? = some (first, body)) : Node.sizeAll body < n.size := by
  cases n <;> cases h <;> simp only [Node.size] <;> omega

/-- The induction is on the size, because a branch is a list of smaller members. -/
theorem memberFaithful (root n : Node) : MemberFaithful root n := by
  induction hs : n.size using Nat.strongRecOn generalizing n with
  | ind size ih =>
    intro p values out hn hp ha hok
    have hsmall : ∀ {body : List Node}, Node.sizeAll body < size →
        ∀ m ∈ body, MemberFaithful root m := by
      intro body hlt m hm
      have hle := Node.size_le_of_mem hm
      exact ih m.size (by omega) m rfl
    obtain ⟨values', hrun⟩ : ∃ values', MemberRun values n out values' := ⟨_, memberRun_of_ok hok⟩
    cases hrun with
    | @declaration m name e c hc =>
      have hv := denotes_expression ha hn (k := 0) rfl hc
      refine .singleton (.declaration hn hv) fun q => ?_
      constructor
      · intro h
        exact h.2.eq_of_no_branch hp hn h.1 (not_inBranch_of_condition rfl) (by simp)
      · rintro rfl
        exact ⟨List.prefix_refl q, .declaration hp hn⟩
    | @assignment m x e c values' hc hb =>
      refine .nil fun q h => ?_
      obtain rfl := h.2.eq_of_no_branch hp hn h.1 (not_inBranch_of_condition rfl) (by simp)
      cases h.2 with
      | declaration hq hn' => cases hn.symm.trans hn'
      | undecided hq hn' hc =>
        obtain rfl := Option.some.inj (hn.symm.trans hn')
        cases hc
    | @undecided n c k hcond hc hb =>
      have hv := denotes_condition ha hn hcond hc
      have hnot : ∀ m b, ¬ Denotes root (p ++ [0]) ⟨m, .bool b⟩ := by
        intro m b hbool
        obtain rfl := hv.unique hbool
        exact hb b rfl
      have hsome : n.condition?.isSome := by rw [hcond]; rfl
      refine .singleton (.undecided hn hsome hv hb) fun q => ?_
      constructor
      · intro h
        refine h.2.eq_of_no_branch hp hn h.1 ?_ ?_
        · intro r hr
          cases hr with
          | body _ htrue => exact hnot _ _ htrue
          | elseBody hfalse => exact hnot _ _ hfalse
        · rintro m body rfl
          cases hcond
      · rintro rfl
        exact ⟨List.prefix_refl q, .undecided hp hn hsome hnot⟩
    | @nothing m c body m' hc =>
      have hv := denotes_condition ha hn rfl hc
      refine .nil fun q h => ?_
      obtain ⟨r, hr, -⟩ := h.2.exists_inBranch hp hn rfl hv h.1
      cases hr with
      | body _ htrue => cases hv.unique htrue
    | @body n c m first body out hcond hc hblock hout =>
      have hv := denotes_condition ha hn hcond hc
      have hsome : n.condition?.isSome := by rw [hcond]; rfl
      have hselected : ∀ i < body.length, Selected root (p ++ [first + i]) := fun i hi =>
        .branchMember hp hn (.body hsome hv hblock hi)
      have hlt : Node.sizeAll body < size := hs ▸ sizeAll_block_lt hblock
      refine (flatten_standFor hn hblock (hsmall hlt) hselected ha hout).congr fun q => ?_
      constructor
      · intro h
        obtain ⟨i, -, hpre, hrem⟩ := h
        exact ⟨(List.prefix_append p _).trans hpre, hrem⟩
      · intro h
        obtain ⟨i, hi, hpre⟩ := h.2.exists_inBody hp hn hsome hv hblock h.1
        exact ⟨i, hi, hpre, h.2⟩
    | @elseBody m c body em ebody m' out hc hout =>
      have hv := denotes_condition ha hn rfl hc
      have hselected : ∀ i < ebody.length, Selected root (p ++ [body.length + 1] ++ [0 + i]) := by
        intro i hi
        rw [Nat.zero_add]
        exact .branchMember hp hn (.elseBody hv hi)
      have hlt : Node.sizeAll ebody < size := by
        rw [← hs, Node.size]
        omega
      refine (flatten_standFor (Node.at?_elseClause hn) rfl (hsmall hlt) hselected
        (ha.child (Node.not_directMember_elseClause hn)) hout).congr fun q => ?_
      constructor
      · intro h
        obtain ⟨i, -, hpre, hrem⟩ := h
        rw [List.append_assoc] at hpre
        exact ⟨(List.prefix_append p _).trans hpre, hrem⟩
      · intro h
        obtain ⟨i, hi, hpre⟩ := h.2.exists_inElseBody hp hn hv h.1
        exact ⟨i, hi, by rwa [Nat.zero_add], h.2⟩

/-- What a member of the sheet comes to when it is evaluated to the end, and the chain it leaves. -/
inductive SheetMemberRun (values : Values) : Node → List Node → Values → Prop
  | assignment {m x e c values'} (hc : fold values e = .ok c) (hb : values.bind x c = .ok values') :
      SheetMemberRun values (.assignment m x e) [] values'
  | rule {m ss body out} (hout : (flatten values.enter body).result = .ok out) :
      SheetMemberRun values (.rule m ss body) [.rule m ss out] values

theorem sheetMemberRun_of_ok {values : Values} {n : Node} {out : List Node}
    (h : (evaluateMember values n).result = .ok out) :
    SheetMemberRun values n out (evaluateMember values n).chain := by
  cases n with
  | assignment m x e =>
    simp only [evaluateMember, Passage.mapResult] at h ⊢
    cases hr : (bindValue (Node.assignment m x e) values x e).result with
    | error f =>
      rw [hr] at h
      cases h
    | ok u =>
      obtain ⟨c, hc, hb⟩ := bindValue_ok hr
      rw [hr] at h
      cases h
      exact .assignment hc hb
  | rule m ss body =>
    simp only [evaluateMember, inScope_flatten] at h ⊢
    cases hr : (flatten values.enter body).result with
    | error f => simp [hr] at h
    | ok body' =>
      simp only [hr] at h ⊢
      cases h
      exact .rule hr
  | literal | reference | operation | declaration | ifClause | ifElse | elseClause | sheet
  | foreign => cases h

/-- Evaluation keeps the rules and nothing else, as many of them as there are. -/
theorem evaluateMembers_rules {values : Values} {ns out : List Node}
    (h : (evaluateMembers values ns).result = .ok out) :
    (∀ n ∈ out, n.isRule = true) ∧ out.length = (ns.filter Node.isRule).length := by
  induction ns generalizing values out with
  | nil =>
    cases h
    exact ⟨by simp, rfl⟩
  | cons n ns ih =>
    obtain ⟨here, hhere, hrest⟩ := Passage.andThen_result_ok.mp h
    obtain ⟨others, hothers, rfl⟩ := Passage.mapResult_ok.mp hrest
    obtain ⟨hrules, hlen⟩ := ih hothers
    obtain ⟨values', hrun⟩ : ∃ values', SheetMemberRun values n here values' :=
      ⟨_, sheetMemberRun_of_ok hhere⟩
    cases hrun with
    | assignment hc hb => exact ⟨hrules, hlen⟩
    | rule hout =>
      refine ⟨?_, ?_⟩
      · simpa [Node.isRule] using hrules
      · simpa [List.filter_cons, Node.isRule] using hlen

theorem evaluate_rules {s : Sheet} (h : s.evaluate.result = .ok ()) :
    s.evaluate.tree.rules.length = s.rules.length := by
  obtain ⟨out, hout, htree⟩ := members_of_evaluate h
  obtain ⟨hrules, hlen⟩ := evaluateMembers_rules hout
  rw [htree, Sheet.rules, List.filter_eq_self.mpr hrules, hlen]
  rfl

/-- Past a member that was evaluated to the end, the chain agrees with the next position. -/
theorem SheetMemberRun.agreesAt_next {root n : Node} {p : Position} {values values' : Values}
    {out : List Node} (h : SheetMemberRun values n out values') {k : Nat}
    (ha : values.AgreesAt (Denotes root) root (p ++ [k])) (hn : root.at? (p ++ [k]) = some n)
    (hk : root.DirectMember p k) (hk' : root.DirectMember p (k + 1)) :
    values'.AgreesAt (Denotes root) root (p ++ [k + 1]) := by
  cases h with
  | assignment hc hb => exact ha.next_assignment hn hk hk' (denotes_expression ha hn rfl hc) hb
  | rule => exact ha.next_other hn (by simp) hk hk'

theorem evaluateMember_standFor {root n : Node} {k : Nat} (hn : root.at? [k] = some n)
    {values : Values} (ha : values.AgreesAt (Denotes root) root [k]) {out : List Node}
    (hok : (evaluateMember values n).result = .ok out) :
    StandFor (RuleBecomes root) (fun q => q = [k] ∧ n.isRule = true) out := by
  obtain ⟨values', hrun⟩ : ∃ values', SheetMemberRun values n out values' :=
    ⟨_, sheetMemberRun_of_ok hok⟩
  cases hrun with
  | assignment hc hb => exact .nil (by simp [Node.isRule])
  | @rule m ss body out hout =>
    have hselected : ∀ i < body.length, Selected root ([k] ++ [0 + i]) := by
      intro i hi
      rw [Nat.zero_add]
      exact .ruleMember hn hi
    have hbody := flatten_standFor hn rfl (fun m _ => memberFaithful root m) hselected ha hout
    refine .singleton ⟨m, ss, body, out, hn, rfl, hbody.congr fun q => ?_⟩ (by simp [Node.isRule])
    constructor
    · intro h
      obtain ⟨i, -, hpre, hrem⟩ := h
      exact ⟨(List.prefix_append [k] _).trans hpre, hrem⟩
    · intro h
      obtain ⟨i, hi, hpre⟩ := h.2.selected.exists_ruleMember h.1 hn
      exact ⟨i, hi, by rwa [Nat.zero_add], h.2⟩

/-- The first member of a sheet is come to with nothing bound. -/
theorem agreesAt_firstMember (s : Sheet) :
    (Chain.empty .snapshot).enter.AgreesAt (Denotes s.node) s.node [0] :=
  (Chain.AgreesAt.at_root (Denotes s.node) s.node .snapshot).first (Node.at?_nil _) rfl

theorem agreesAt_nextMember {s : Sheet} {k : Nat} {n : Node} (hn : s.members[k]? = some n)
    {values : Values} (ha : values.AgreesAt (Denotes s.node) s.node [k]) {out : List Node}
    (hok : (evaluateMember values n).result = .ok out) (hk : k + 1 < s.members.length) :
    (evaluateMember values n).chain.AgreesAt (Denotes s.node) s.node [k + 1] := by
  have hdirect : ∀ {i}, i < s.members.length → s.node.DirectMember [] i := by
    intro i hi
    rw [← Nat.zero_add i]
    exact directMember_of_lt (Node.at?_nil _) rfl hi
  exact (sheetMemberRun_of_ok hok).agreesAt_next (p := []) ha (s.at?_member hn)
    (hdirect (Nat.lt_of_succ_lt hk)) (hdirect hk)

/-- What the first members of a sheet come to stands for the rules among them. -/
theorem before_standFor {s : Sheet} {before rest out : List Node} (hs : s.members = before ++ rest)
    (hok : (Passage.gather evaluateMember (Chain.empty .snapshot).enter before).result = .ok out) :
    StandFor (RuleBecomes s.node)
      (fun q => ∃ k m ss body, q = [k] ∧ before[k]? = some (.rule m ss body)) out := by
  have hmember : ∀ {k n}, before[k]? = some n → s.members[k]? = some n := fun hn => by
    rw [hs, List.getElem?_append_left (List.getElem?_eq_some_iff.mp hn).1, hn]
  refine (standFor_gather
    (fun k c => k < s.members.length → c.AgreesAt (Denotes s.node) s.node [k])
    (fun k q => q = [k] ∧ ∃ m ss body, before[k]? = some (.rule m ss body)) ?_ ?_
    (fun _ => agreesAt_firstMember s) hok).congr fun q => ?_
  · intro k n c here hn hinv hres
    have hn' := hmember hn
    have ha := hinv (List.getElem?_eq_some_iff.mp hn').1
    refine ⟨(evaluateMember_standFor (s.at?_member hn') ha hres).congr fun q => ?_,
      agreesAt_nextMember hn' ha hres⟩
    rw [hn]
    cases n <;> simp [Node.isRule]
  · rintro i j q q' hij ⟨rfl, -⟩ ⟨rfl, -⟩
    exact endsBefore_sibling [] [] [] hij
  · constructor
    · rintro ⟨k, -, rfl, m, ss, body, hn⟩
      exact ⟨k, m, ss, body, rfl, hn⟩
    · rintro ⟨k, m, ss, body, rfl, hn⟩
      exact ⟨k, (List.getElem?_eq_some_iff.mp hn).1, rfl, m, ss, body, hn⟩

theorem evaluateMembers_standFor {s : Sheet} {out : List Node}
    (hok : (evaluateMembers (Chain.empty .snapshot).enter s.members).result = .ok out) :
    StandFor (RuleBecomes s.node)
      (fun q => ∃ k m ss body, q = [k] ∧ s.members[k]? = some (.rule m ss body)) out := by
  rw [evaluateMembers_eq_gather] at hok
  exact before_standFor (List.append_nil s.members).symm hok

/-- If evaluation ends normally, the sheet keeps its slot and is left with its rules, in their order, and
each rule with its selected declarations and undecided if-clauses, in document order. The value of a
declaration is what its expression denotes, and an undecided if-clause stands as it was. -/
theorem evaluate_faithful (s : Sheet) (h : s.evaluate.result = .ok ()) :
    s.evaluate.tree.mark = s.mark ∧
      StandFor (RuleBecomes s.node)
        (fun q => ∃ k m ss body, q = [k] ∧ s.members[k]? = some (.rule m ss body))
        s.evaluate.tree.members := by
  obtain ⟨out, hok, htree⟩ := members_of_evaluate h
  rw [htree]
  exact ⟨rfl, evaluateMembers_standFor hok⟩

/-- A name that is bound again in a branch has its old value after it, and a condition that is no boolean
leaves its if-clause alone. -/
theorem evaluate_faithful_undecided :
    let pixels : Int → Node := fun n => .literal none (.pixel n)
    let undecided : Node := .ifClause none (.reference none "X")
      [.declaration none "color" (.reference none "X")]
    let s : Sheet := ⟨none, [.assignment none "A" (.literal none (.bool true)),
      .rule none [.tag "p"] [.assignment none "X" (pixels 1),
        .declaration none "width" (.reference none "X"),
        .ifElse none (.reference none "A") [.assignment none "X" (pixels 2),
          .declaration none "height" (.operation none .add (.reference none "X") (pixels 3)), undecided]
          none [.declaration none "height" (pixels 9)],
        .declaration none "top" (.reference none "X")]]⟩
    s.evaluate.result = .ok () ∧ StandFor (RuleBecomes s.node)
      (fun q => ∃ k m ss body, q = [k] ∧ s.members[k]? = some (.rule m ss body))
      [.rule none [.tag "p"] [.declaration none "width" (pixels 1),
        .declaration none "height" (pixels 5), undecided, .declaration none "top" (pixels 1)]] := by
  intro pixels undecided s
  have hok : s.evaluate.result = .ok () := by decide +kernel
  have htree : s.evaluate.tree.members = [.rule none [.tag "p"] [.declaration none "width" (pixels 1),
      .declaration none "height" (pixels 5), undecided, .declaration none "top" (pixels 1)]] := by
    decide +kernel
  rw [← htree]
  exact ⟨hok, (evaluate_faithful s hok).2⟩

end StyleLang.Evaluation
