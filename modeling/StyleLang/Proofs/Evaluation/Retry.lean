import StyleLang.Proofs.Evaluation.Settled
import StyleLang.Proofs.Evaluation.Stopped

/-!
# Evaluating again after a fault

Flattening a body again that was flattened already comes to the same, at whatever member it ended. A rule
that was evaluated to its end is evaluated to itself, if no if-clause in it was left undecided: an undecided
one would now be looked at without the assignments that went before it. So after a fault the same fault is
come to again and nothing else is changed.
-/

namespace StyleLang

namespace Evaluation

open Position

@[simp] theorem fold_node (values : Values) (c : Constant) : fold values c.node = .ok c := rfl

mutual

theorem flattenMember_again (values : Values) (n : Node) :
    flattenMember values (flattenMember values n).tree = flattenMember values n := by
  cases n with
  | declaration m p e =>
    cases hc : fold values e with
    | error f => simp [flattenMember, hc, Passage.stop]
    | ok c => simp [flattenMember, hc, Passage.done]
  | assignment m x e =>
    cases hc : fold values e with
    | error f => simp [flattenMember, bindValue, hc, Passage.stop, Passage.mapResult]
    | ok c => cases hb : values.bind x c <;>
        simp [flattenMember, bindValue, hc, Passage.bind, hb, Passage.stop, Passage.mapResult]
  | ifClause m c body =>
    simp only [flattenMember, inScope_flatten]
    cases hc : fold values c with
    | error f => simp [flattenMember, hc, Passage.stop]
    | ok k =>
      obtain ⟨m', v⟩ := k
      cases v with
      | bool b =>
        cases b with
        | true =>
          simp only [Passage.mapTree, flattenMember, hc, inScope_flatten, flatten_again values.enter body]
        | false =>
          dsimp only
          rw [Passage.inScope_eq (.refl values.enter)]
          simp only [Passage.done, flattenMember, hc]
          rw [Passage.inScope_eq (.refl values.enter)]
      | pixel | percentage | scalar | color => simp [flattenMember, hc, Passage.done]
  | ifElse m c body em ebody =>
    simp only [flattenMember, inScope_flatten]
    cases hc : fold values c with
    | error f => simp [flattenMember, hc, Passage.stop]
    | ok k =>
      obtain ⟨m', v⟩ := k
      cases v with
      | bool b =>
        cases b with
        | true =>
          simp only [Passage.mapTree, flattenMember, hc, inScope_flatten, flatten_again values.enter body]
        | false =>
          simp only [Passage.mapTree, flattenMember, hc, inScope_flatten, flatten_again values.enter ebody]
      | pixel | percentage | scalar | color => simp [flattenMember, hc, Passage.done]
  | literal | reference | operation | elseClause | rule | sheet | foreign => rfl

theorem flatten_again (values : Values) (ns : List Node) :
    flatten values (flatten values ns).tree = flatten values ns := by
  cases ns with
  | nil => rfl
  | cons n ns =>
    cases hr : (flattenMember values n).result with
    | error f =>
      rw [flatten, Passage.andThen_of_error hr]
      simp only [flatten, flattenMember_again values n, Passage.andThen_of_error hr]
    | ok here =>
      rw [flatten, Passage.andThen_of_ok hr]
      simp only [Passage.mapResult, flatten, flattenMember_again values n, Passage.andThen_of_ok hr,
        flatten_again _ ns]

end

theorem evaluateMember_again_of_error {values : Values} {n : Node} {f : Fault}
    (h : (evaluateMember values n).result = .error f) :
    evaluateMember values (evaluateMember values n).tree = evaluateMember values n := by
  cases hn : n.isRule with
  | false => rw [evaluateMember_tree hn]
  | true =>
    cases n with
    | rule m ss body =>
      have htree : (evaluateMember values (.rule m ss body)).tree =
          .rule m ss (flatten values.enter body).tree := by
        simp only [evaluateMember, inScope_flatten] at h ⊢
        split at h
        · rfl
        · cases h
      rw [htree]
      simp only [evaluateMember, inScope_flatten, flatten_again]
    | literal | reference | operation | declaration | assignment | ifClause | ifElse | elseClause
    | sheet | foreign => cases hn

/-- A member that came to plain rules comes to them again, and leaves the same chain. -/
theorem evaluateMember_again_of_ok {values : Values} {n : Node} {out : List Node}
    (h : (evaluateMember values n).result = .ok out) (hplain : ∀ r ∈ out, PlainRule r) :
    (evaluateMember values (evaluateMember values n).tree).tree = (evaluateMember values n).tree ∧
      (evaluateMember values (evaluateMember values n).tree).chain = (evaluateMember values n).chain ∧
        (evaluateMember values (evaluateMember values n).tree).result = .ok out := by
  have hout := evaluateMember_tree_of_ok h
  cases hn : n.isRule with
  | false =>
    rw [evaluateMember_tree hn]
    exact ⟨evaluateMember_tree hn, rfl, h⟩
  | true =>
    rw [hn, if_pos rfl] at hout
    subst hout
    rw [evaluateMember_plain (hplain _ (List.mem_singleton.mpr rfl)), evaluateMember_chain hn]
    exact ⟨rfl, rfl, rfl⟩

theorem gather_again {values : Values} {ns out : List Node}
    (h : (Passage.gather evaluateMember values ns).result = .ok out) (hplain : ∀ r ∈ out, PlainRule r) :
    let again := Passage.gather evaluateMember values (Passage.gather evaluateMember values ns).tree
    again.tree = (Passage.gather evaluateMember values ns).tree ∧
      again.chain = (Passage.gather evaluateMember values ns).chain ∧ again.result = .ok out := by
  induction ns generalizing values out with
  | nil => exact ⟨rfl, rfl, h⟩
  | cons n ns ih =>
    rw [Passage.gather] at h
    obtain ⟨here, hn, hrest⟩ := Passage.andThen_result_ok.mp h
    obtain ⟨others, hothers, rfl⟩ := Passage.mapResult_ok.mp hrest
    obtain ⟨htree, hchain, hresult⟩ := evaluateMember_again_of_ok hn fun r hr =>
      hplain r (List.mem_append_left others hr)
    obtain ⟨htrees, hchains, hresults⟩ := ih hothers fun r hr =>
      hplain r (List.mem_append_right here hr)
    simp only [Passage.gather, Passage.andThen_of_ok hn, Passage.mapResult, Passage.andThen_of_ok hresult,
      htree, hchain, htrees, hchains, hresults]
    exact ⟨trivial, trivial, rfl⟩

end Evaluation

/-- Every if-clause that is come to in a rule which is evaluated to its end decides for a branch: its
condition is a boolean. -/
def Sheet.DecidesClauses (s : Sheet) : Prop :=
  ∀ k p n, (s.cut (k + 1)).evaluate.result = .ok () → [k] <+: p → Evaluation.Selected s.node p →
    s.node.at? p = some n → n.condition?.isSome →
      ∃ m b, Evaluation.Denotes s.node (p ++ [0]) ⟨m, .bool b⟩

namespace Evaluation

/-- What rules come to in which no if-clause is undecided is plain. -/
theorem plainRule_of_decides {s : Sheet} (hd : s.DecidesClauses) {before rest first : List Node}
    (hs : s.members = before ++ rest)
    (h : (Passage.gather evaluateMember (Chain.empty .snapshot).enter before).result = .ok first) :
    ∀ r ∈ first, PlainRule r := by
  intro r hr
  obtain ⟨q, ⟨i, m, ss, body, rfl, hn⟩, m', ss', body', out, -, rfl, hbody⟩ :=
    (before_standFor hs h).exists_of_mem hr
  have hi := (List.getElem?_eq_some_iff.mp hn).1
  refine .rule m' ss' fun d hmem => ?_
  obtain ⟨p, ⟨hp, hrem⟩, hbecomes⟩ := hbody.exists_of_mem hmem
  cases hbecomes with
  | declaration => exact .declaration _ _ _ _
  | undecided hn' hc hv hb =>
    obtain ⟨m'', b, hbool⟩ := hd i p d (evaluate_cut_ok hs h hi) hp hrem.selected hn' hc
    exact absurd (congrArg Constant.value (hv.unique hbool)) (hb b)

/-- After a fault a sheet evaluates to the same fault again, and is left as it is, if every if-clause that
was come to in the rules before the fault decided for a branch. One in the rule with the fault may have
been left undecided. -/
theorem evaluate_again (s : Sheet) (f : Fault) (h : s.evaluate.result = .error f)
    (hd : s.DecidesClauses) :
    s.evaluate.tree.evaluate.result = .error f ∧ s.evaluate.tree.evaluate.tree = s.evaluate.tree := by
  obtain ⟨before, n, after, first, hs, hfirst, hn, htree⟩ := exists_stopped h
  obtain ⟨hbefore, hchain, hresult⟩ := gather_again hfirst (plainRule_of_decides hd hs hfirst)
  change _ = chainAfter before at hchain
  have hmember := evaluateMember_again_of_error hn
  have herror : (evaluateMembers (Chain.empty .snapshot).enter s.evaluate.tree.members).result =
      .error f := by
    rw [evaluateMembers_eq_gather, htree]
    refine Passage.gather_append_of_error hresult ?_ after
    rw [hchain, hmember, hn]
  obtain ⟨hagain, hleft⟩ := evaluate_of_members_error herror
  refine ⟨hagain, ?_⟩
  rw [hleft, evaluateMembers_eq_gather]
  simp only [htree, Passage.gather_append hresult, hbefore, hchain]
  rw [Passage.gather, hmember, Passage.andThen_of_error hn]

/-- A rule whose if-clause is gone when the sheet is evaluated again, and its assignment with it, and a rule
with an if-clause that is still undecided then. -/
theorem evaluate_again_undecided :
    let yes : Node := .literal none (.bool true)
    let pixels : Int → Node := fun n => .literal none (.pixel n)
    let width : Node → Node := .declaration none "width"
    let x : Node := .reference none "X"
    let s : Sheet := ⟨none,
      [.rule none [.tag "p"] [.assignment none "X" (pixels 1), .ifClause none yes [width x]],
        .rule none [.tag "a"] [.assignment none "X" (pixels 2), .ifClause none x [width x], width x,
          width (.operation none .add x yes)]]⟩
    let f : Fault := .operands .add (pixels 2) yes
    s.DecidesClauses ∧ s.evaluate.result = .error f ∧ s.evaluate.tree.members[0]? =
        some (.rule none [.tag "p"] [width (pixels 1)]) ∧
      s.evaluate.tree.evaluate.result = .error f ∧ s.evaluate.tree.evaluate.tree = s.evaluate.tree := by
  intro yes pixels width x s f
  have herror : s.evaluate.result = .error f := by decide +kernel
  have hd : s.DecidesClauses := by
    intro k p n hcut hk hsel hn hc
    cases k with
    | succ k =>
      -- with the second rule there is the fault
      have hall : s.cut (k + 1 + 1) = s := by simp [Sheet.cut, s]
      rw [hall, herror] at hcut
      cases hcut
    | zero =>
      have hfirst : Selected s.node [0, 0] := .ruleMember rfl (by decide)
      have hclause : Selected s.node [0, 1] := .ruleMember rfl (by decide)
      have hinner : Selected s.node ([0, 1] ++ [1 + 0]) :=
        .branchMember hclause rfl (.body rfl (.literal rfl) rfl Nat.one_pos)
      have hplain : n.condition? ≠ none := Option.isSome_iff_ne_none.mp hc
      obtain ⟨i, hi, hpre⟩ := hsel.exists_ruleMember hk rfl
      obtain rfl | rfl : i = 0 ∨ i = 1 := by simp at hi; omega
      · obtain rfl := hsel.eq_of_no_branch hfirst rfl hpre (not_inBranch_of_condition rfl) nofun
        cases hn
        exact absurd rfl hplain
      · by_cases hp : p = [0, 1]
        · subst hp
          exact ⟨none, true, .literal rfl⟩
        · obtain ⟨j, hj, hbelow⟩ := hsel.inBody hclause rfl rfl (.literal rfl) rfl hpre hp
          obtain rfl : j = 0 := by simpa using hj
          obtain rfl := hsel.eq_of_no_branch hinner rfl hbelow (not_inBranch_of_condition rfl) nofun
          cases hn
          exact absurd rfl hplain
  obtain ⟨hagain, htree⟩ := evaluate_again s f herror hd
  exact ⟨hd, herror, by decide +kernel, hagain, htree⟩

end Evaluation

end StyleLang
