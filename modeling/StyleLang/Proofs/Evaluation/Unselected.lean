import StyleLang.Proofs.Evaluation.Refolding
import StyleLang.Proofs.Scope.Alike
import StyleLang.Proofs.Tree.Exchange

/-!
# Branches that are not selected

An evaluation does not look into the branch that an if-clause does not select. With any other branch in
its place, or with none, it makes the same calls and ends in the same way, and it leaves the same tree;
only a rule that it stopped in, or did not come to, still holds the branch.
-/

namespace StyleLang

namespace Evaluation

section

variable {root n : Node} {f : Node → Node} {b : Bool} {values : Values}

/-- The if-clause itself: the exchanged branch is neither flattened nor spliced. -/
theorem flattenMember_exchange (hf : Node.ExchangesOther b f) {c : Node} (hn : n.condition? = some c)
    {m : Mark} (hc : fold values c = .ok ⟨m, .bool b⟩) :
    flattenMember values (f n) = (flattenMember values n).mapTree f := by
  cases n with
  | ifClause m' c' body =>
    obtain rfl : c' = c := Option.some.inj hn
    cases hf with
    | elseClause other => cases other <;> simp only [Node.withElse, flattenMember, hc] <;> rfl
    | body body' =>
      simp only [Node.withBody, flattenMember, hc]
      rw [Passage.inScope_eq (.refl values.enter), Passage.inScope_eq (.refl values.enter)]
      rfl
  | ifElse m' c' body em ebody =>
    obtain rfl : c' = c := Option.some.inj hn
    cases hf with
    | elseClause other => cases other <;> simp only [Node.withElse, flattenMember, hc] <;> rfl
    | body body' =>
      simp only [Node.withBody, flattenMember, hc]
      rfl
  | literal | reference | operation | declaration | assignment | elseClause | rule | sheet
  | foreign => cases hn

/-- Flattening the node at the position goes alike whether it is changed or not, and leaves it changed in the
same way. -/
def Indifferent (root : Node) (p : Position) (f : Node → Node) : Prop :=
  ∀ n values, root.at? p = some n → values.AgreesAt (Denotes root) root p →
    (flattenMember values n).Alike (fun t t' => t' = f t) (flattenMember values (f n))

variable {p : Position}

theorem fold_condition_of_denotes (ha : values.AgreesAt (Denotes root) root p) (hn : root.at? p = some n)
    {c : Node} (hc : n.condition? = some c) {k : Constant} (hv : Denotes root (p ++ [0]) k) :
    fold values c = .ok k := by
  have hget : n.expressions[0]? = some c := by
    cases n <;> simp_all [Node.condition?, Node.expressions]
  refine fold_of_denotes (ha.child (Node.not_directMember_expression hn hget)) ?_ hv
  rw [Node.at?_child hn, Node.children_of_expressions hget]

theorem indifferent_exchange (hf : Node.ExchangesOther b f) (hn : root.at? p = some n)
    (hc : n.condition?.isSome) {m : Mark} (hv : Denotes root (p ++ [0]) ⟨m, .bool b⟩) :
    Indifferent root p f := by
  intro n' values hn' ha
  cases hn.symm.trans hn'
  obtain ⟨c, hc⟩ := Option.isSome_iff_exists.mp hc
  rw [flattenMember_exchange hf hc (fold_condition_of_denotes ha hn hc hv)]
  exact ⟨rfl, rfl, rfl, rfl⟩

/-- A block in a scope of its own. -/
theorem Indifferent.block (hn : root.at? p = some n) {first : Nat} {body : List Node}
    (hb : n.block? = some (first, body)) {i : Nat} (hi : i < body.length)
    (h : Indifferent root (p ++ [first + i]) f) (ha : values.AgreesAt (Denotes root) root p) :
    (Passage.inScope values fun opened => flatten opened body).Alike
      (fun ts ts' => i < ts.length ∧ ts' = ts.modify i f)
      (Passage.inScope values fun opened => flatten opened (body.modify i f)) := by
  have hat : ∀ {k m}, body[k]? = some m → root.at? (p ++ [first + k]) = some m := fun hm => by
    rw [Node.at?_child hn, Node.block?_children hb (List.getElem?_eq_some_iff.mp hm).1, hm]
  have hm := List.getElem?_eq_getElem hi
  apply Passage.Alike.inScope
  rw [Node.modify_eq_set_of_getElem? hm, flatten_eq_gather, flatten_eq_gather]
  refine (Passage.Alike.gather_set (Q := fun t t' => t' = f t)
    (fun k c => k < body.length → c.AgreesAt (Denotes root) root (p ++ [first + k])) ?_
    (fun _ => ha.first hn hb) hm rfl fun c hc => h _ c (hat hm) (hc hi)).mono ?_
  · intro k m c here hm hc hok hlt
    have hk := (List.getElem?_eq_some_iff.mp hm).1
    exact (memberRun_of_ok hok).agreesAt_next (hc hk) (hat hm) (directMember_of_lt hn hb hk)
      (directMember_of_lt hn hb hlt)
  · rintro ts ts' ⟨t, t', ht, rfl, rfl⟩
    exact ⟨(List.getElem?_eq_some_iff.mp ht).1, (Node.modify_eq_set_of_getElem? ht _).symm⟩

/-- A change in the branch that is selected, to which flattening that branch is indifferent. -/
theorem Indifferent.branch {q : Position} (hn : root.at? p = some n) (hq : InBranch root p n q)
    (h : Indifferent root q f) : ∃ r, q = p ++ r ∧ Indifferent root p (Node.modifyAt f r) := by
  cases hq with
  | @body _ m first body i hc hv hb hi =>
    refine ⟨[first + i], rfl, fun n' values hn' ha => ?_⟩
    cases hn.symm.trans hn'
    have hbranch := h.block hn hb hi ha
    cases n with
    | ifClause m' c body' =>
      cases hb
      have hc := fold_condition_of_denotes ha hn rfl hv
      rw [Node.modifyAt_ifClause]
      simp only [flattenMember, hc]
      refine hbranch.mapTree ?_
      rintro ts ts' ⟨-, rfl⟩
      exact (Node.modifyAt_ifClause f m' c ts i []).symm
    | ifElse m' c body' em ebody =>
      cases hb
      have hc := fold_condition_of_denotes ha hn rfl hv
      rw [Node.modifyAt_ifElse_body f m' c em ebody hi]
      simp only [flattenMember, hc]
      refine hbranch.mapTree ?_
      rintro ts ts' ⟨hlt, rfl⟩
      exact (Node.modifyAt_ifElse_body f m' c em ebody hlt []).symm
    | literal | reference | operation | declaration | assignment | elseClause | rule | sheet
    | foreign => cases hc
  | @elseBody m c body em ebody m' i hv hi =>
    refine ⟨[body.length + 1, i], by simp, fun n' values hn' ha => ?_⟩
    cases hn.symm.trans hn'
    have ha' := ha.child (Node.not_directMember_elseClause hn)
    rw [← Nat.zero_add i] at h
    have hbranch := h.block (Node.at?_elseClause hn) rfl hi ha'
    have hc := fold_condition_of_denotes ha hn rfl hv
    rw [Node.modifyAt_ifElse_elseBody]
    simp only [flattenMember, hc]
    refine hbranch.mapTree ?_
    rintro ts ts' ⟨-, rfl⟩
    exact (Node.modifyAt_ifElse_elseBody f m c body em ts i []).symm

/-- From a selected member outwards to the member of a rule that it is in. -/
theorem Indifferent.outwards (hp : Selected root p) (h : Indifferent root p f) :
    ∃ k m ss body i r, p = k :: i :: r ∧ root.at? [k] = some (.rule m ss body) ∧ i < body.length ∧
      Indifferent root [k, i] (Node.modifyAt f r) := by
  induction hp generalizing f with
  | @ruleMember k m ss body i hn hi => exact ⟨k, m, ss, body, i, [], rfl, hn, hi, h⟩
  | branchMember hp hn hq ih =>
    obtain ⟨r, rfl, hbranch⟩ := h.branch hn hq
    obtain ⟨k, m, ss, body, i, r', rfl, hrule, hi, hmember⟩ := ih hbranch
    refine ⟨k, m, ss, body, i, r' ++ r, rfl, hrule, hi, ?_⟩
    rwa [Node.modifyAt_append]

/-- A rule that is evaluated to the end does not hold the change any more. -/
theorem evaluateMember_alike {k i : Nat} {r : Position} {m : Mark} {ss : List Selector} {body : List Node}
    (hn : root.at? [k] = some (.rule m ss body)) (hi : i < body.length)
    (h : Indifferent root [k, i] (Node.modifyAt f r)) (ha : values.AgreesAt (Denotes root) root [k]) :
    (evaluateMember values (.rule m ss body)).Alike (fun t t' => t' = t ∨ t' = t.modifyAt f (i :: r))
      (evaluateMember values (.rule m ss (body.modify i (Node.modifyAt f r)))) := by
  have hmember : Indifferent root ([k] ++ [0 + i]) (Node.modifyAt f r) := by rwa [Nat.zero_add]
  obtain ⟨⟨-, htree⟩, hchain, hcalls, hresult⟩ := hmember.block hn rfl hi ha
  simp only [evaluateMember, hresult]
  split
  · exact ⟨.inr (by simp only [htree, Node.modifyAt_rule]), hchain, hcalls, rfl⟩
  · exact ⟨.inl rfl, hchain, hcalls, rfl⟩

end

theorem evaluateMembers_alike {s : Sheet} {f : Node → Node} {k i : Nat} {r : Position} {m : Mark}
    {ss : List Selector} {body : List Node} (hn : s.members[k]? = some (.rule m ss body))
    (hi : i < body.length) (h : Indifferent s.node [k, i] (Node.modifyAt f r)) :
    (Passage.inScope (Chain.empty .snapshot) fun values => evaluateMembers values s.members).Alike
      (fun ts ts' => ts' = ts ∨ ts' = ts.modify k (Node.modifyAt f (i :: r)))
      (Passage.inScope (Chain.empty .snapshot) fun values =>
        evaluateMembers values (s.members.modify k (Node.modifyAt f (i :: r)))) := by
  apply Passage.Alike.inScope
  rw [Node.modify_eq_set_of_getElem? hn, evaluateMembers_eq_gather, evaluateMembers_eq_gather]
  refine (Passage.Alike.gather_set (Q := fun t t' => t' = t ∨ t' = t.modifyAt f (i :: r))
    (fun k c => k < s.members.length → c.AgreesAt (Denotes s.node) s.node [k]) ?_
    (fun _ => agreesAt_firstMember s) hn (.inr rfl) fun c hc => ?_).mono ?_
  · intro j n c here hj hc hok hlt
    exact agreesAt_nextMember hj (hc (List.getElem?_eq_some_iff.mp hj).1) hok hlt
  · exact evaluateMember_alike (s.at?_member hn) hi h (hc (List.getElem?_eq_some_iff.mp hn).1)
  · rintro ts ts' ⟨t, t', ht, rfl | rfl, rfl⟩
    · obtain ⟨hlt, rfl⟩ := List.getElem?_eq_some_iff.mp ht
      exact .inl (List.set_getElem_self hlt)
    · exact .inr (Node.modify_eq_set_of_getElem? ht _).symm

end Evaluation

/-- The branch that an if-clause does not select may be exchanged for any other, of whatever objects, or left
out where it is an else-clause: the evaluation makes the same calls and ends in the same way, and if it ends
normally it leaves the same sheet. -/
theorem Sheet.evaluate_exchange (s : Sheet) {p : Position} (hp : Evaluation.Selected s.node p)
    (hn : ∃ n, s.node.at? p = some n ∧ n.condition?.isSome) {m : Mark} {b : Bool}
    (hv : Evaluation.Denotes s.node (p ++ [0]) ⟨m, .bool b⟩) {f : Node → Node}
    (hf : Node.ExchangesOther b f) :
    (s.modifyAt f p).evaluate.result = s.evaluate.result ∧
      (s.modifyAt f p).evaluate.calls = s.evaluate.calls ∧
      (s.evaluate.result = .ok () → (s.modifyAt f p).evaluate.tree = s.evaluate.tree) ∧
      ((s.modifyAt f p).evaluate.tree = s.evaluate.tree ∨
        (s.modifyAt f p).evaluate.tree = s.evaluate.tree.modifyAt f p) := by
  obtain ⟨n, hn, hc⟩ := hn
  obtain ⟨k, m', ss, body, i, r, rfl, hrule, hi, hmember⟩ :=
    (Evaluation.indifferent_exchange hf hn hc hv).outwards hp
  have hrule : s.members[k]? = some (.rule m' ss body) := by
    simpa [Sheet.node, Node.at?, Node.children] using hrule
  obtain ⟨htree, -, hcalls, hresult⟩ := Evaluation.evaluateMembers_alike hrule hi hmember
  simp only [Sheet.evaluate, Sheet.modifyAt, hresult]
  split
  · refine ⟨rfl, hcalls, fun hok => ?_, ?_⟩
    · cases hok
    rcases htree with htree | htree
    · exact .inl (by simp only [htree])
    · exact .inr (by simp only [htree])
  · exact ⟨rfl, hcalls, fun _ => rfl, .inl rfl⟩

/-- Objects that nothing could be made of stand in a body inside a branch that is taken, and are not come to;
the condition of the branch is a variable. -/
theorem Sheet.evaluate_exchange_foreign :
    let pixels : Int → Node := fun n => .declaration none "width" (.literal none (.pixel n))
    let unselected : List Node → Node := .ifClause none (.literal none (.bool false))
    let s : List Node → Sheet := fun body => ⟨none, [.assignment none "A" (.literal none (.bool true)),
      .rule none [.tag "p"] [.ifElse none (.reference none "A") [pixels 1, unselected body]
        none [pixels 2], pixels 3]]⟩
    let other : List Node := [.foreign "x", .declaration none "color" (.reference none "B")]
    (s [pixels 4]).evaluate.result = .ok () ∧ (s other).evaluate.result = .ok () ∧
      (s other).evaluate.tree = (s [pixels 4]).evaluate.tree ∧
        (s other).evaluate.calls = (s [pixels 4]).evaluate.calls := by
  intro pixels unselected s other
  have hok : (s [pixels 4]).evaluate.result = .ok () := by decide +kernel
  have hrule : (s [pixels 4]).node.at? [1] = some (.rule none [.tag "p"]
      [.ifElse none (.reference none "A") [pixels 1, unselected [pixels 4]] none [pixels 2], pixels 3]) := rfl
  have hbound : (Evaluation.evaluateMember (Chain.empty .snapshot).enter
      (.assignment none "A" (.literal none (.bool true)))).result = .ok [] := rfl
  have hrow := Evaluation.InRow.rule hrule (Evaluation.agreesAt_nextMember rfl
    (Evaluation.agreesAt_firstMember (s [pixels 4])) hbound (by decide))
  have hv : Evaluation.Denotes (s [pixels 4]).node [1, 0, 0] ⟨none, .bool true⟩ :=
    Evaluation.denotes_condition hrow.head.2.2 rfl rfl (by decide +kernel)
  have hp : Evaluation.Selected (s [pixels 4]).node [1, 0, 2] :=
    .branchMember (.ruleMember (i := 0) hrule (by decide)) rfl (.body (i := 1) rfl hv rfl (by decide))
  obtain ⟨hresult, hcalls, htree, -⟩ := Sheet.evaluate_exchange (s [pixels 4]) hp ⟨_, rfl, rfl⟩
    (.literal rfl) (.body other)
  exact ⟨hok, hresult.trans hok, htree hok, hcalls⟩

end StyleLang
