import Mathlib.Data.Set.Card
import StyleLang.Proofs.Evaluation.Refolding
import StyleLang.Proofs.Typing.Scopes

/-!
# The scopes of an evaluation, and of both passes

Wherever an evaluation ends, its scopes are entered and left in nested pairs. If it ends normally it has
entered one scope for the sheet, one for each rule and one for each if-clause that it came to and that has
a boolean for its condition, whether or not there is a branch to be taken.
-/

namespace StyleLang

namespace Evaluation

open Position

theorem fold_noScope {values : Values} {e : Node} {f : Fault} (h : fold values e = .error f)
    (cause : ScopeFault) : f ≠ .scope cause := by
  cases e with
  | literal m v => cases h
  | reference m x =>
    simp only [fold] at h
    split at h
    · cases h
    · cases h
      simp
  | operation m op l r =>
    simp only [fold] at h
    cases hl : fold values l with
    | error f' =>
      simp only [hl] at h
      cases h
      exact fold_noScope hl cause
    | ok a =>
      simp only [hl] at h
      cases hr : fold values r with
      | error f' =>
        simp only [hr] at h
        cases h
        exact fold_noScope hr cause
      | ok b =>
        simp only [hr, combine, Constant.node] at h
        split at h <;> cases h
        simp
  | declaration | assignment | ifClause | ifElse | elseClause | rule | sheet | foreign =>
    cases h
    simp

theorem bindValue_tidy {τ : Type} (tree : τ) {values : Values} (hc : values.scopes ≠ []) (x : String)
    (e : Node) : Passage.Tidy values (bindValue tree values x e) := by
  unfold bindValue
  split
  · rename_i f hf
    exact .stop _ _ (fold_noScope hf)
  · exact .bind _ hc x _

theorem enters_bindValue {τ : Type} (tree : τ) (values : Values) (x : String) (e : Node) :
    Call.enters (bindValue tree values x e).calls = 0 := by
  unfold bindValue
  split
  · rfl
  · unfold Passage.bind
    split <;> rfl

mutual

theorem flattenMember_tidy {values : Values} (hc : values.scopes ≠ []) (n : Node) :
    Passage.Tidy values (flattenMember values n) := by
  cases n with
  | declaration m p e =>
    simp only [flattenMember]
    split
    · rename_i f hf
      exact .stop _ _ (fold_noScope hf)
    · exact .done _ _ _
  | assignment m x e => exact (bindValue_tidy _ hc x e).mapResult _
  | ifClause m c body =>
    simp only [flattenMember]
    split
    · rename_i f hf
      exact .stop _ _ (fold_noScope hf)
    · exact (flatten_scope values body).mapTree _
    · refine Passage.Tidy.inScope ?_ (.refl values.enter)
      exact .done _ _ _
    · exact .done _ _ _
  | ifElse m c body em ebody =>
    simp only [flattenMember]
    split
    · rename_i f hf
      exact .stop _ _ (fold_noScope hf)
    · exact (flatten_scope values body).mapTree _
    · exact (flatten_scope values ebody).mapTree _
    · exact .done _ _ _
  | literal | reference | operation | elseClause | rule | sheet | foreign => exact .stop _ _ (by simp)

theorem flatten_tidy {values : Values} (hc : values.scopes ≠ []) (ns : List Node) :
    Passage.Tidy values (flatten values ns) := by
  cases ns with
  | nil => exact .done _ _ _
  | cons n ns =>
    exact (flattenMember_tidy hc n).andThen fun _ _ =>
      (flatten_tidy ((flattenMember_sameBelow values n).ne_nil hc) ns).mapResult _

/-- A body or branch in a scope of its own, whatever is around it. -/
theorem flatten_scope (values : Values) (ns : List Node) :
    Passage.Tidy values (Passage.inScope values fun opened => flatten opened ns) :=
  (flatten_tidy values.enter_ne_nil ns).inScope (flatten_sameBelow values.enter ns)

end

theorem evaluateMember_tidy {values : Values} (hc : values.scopes ≠ []) (n : Node) :
    Passage.Tidy values (evaluateMember values n) := by
  cases n with
  | assignment m x e => exact (bindValue_tidy _ hc x e).mapResult _
  | rule m ss body =>
    obtain ⟨hnested, hreplay, hnoFault⟩ := flatten_scope values body
    simp only [evaluateMember]
    split
    · rename_i f hf
      exact ⟨hnested, hreplay, fun cause h => hnoFault cause (hf.trans (by cases h; rfl))⟩
    · exact ⟨hnested, hreplay, by simp⟩
  | literal | reference | operation | declaration | ifClause | ifElse | elseClause | sheet
  | foreign => exact .stop _ _ (by simp)

theorem evaluateMembers_tidy {values : Values} (hc : values.scopes ≠ []) (ns : List Node) :
    Passage.Tidy values (evaluateMembers values ns) := by
  induction ns generalizing values with
  | nil => exact .done _ _ _
  | cons n ns ih =>
    exact (evaluateMember_tidy hc n).andThen fun _ _ =>
      (ih ((evaluateMember_sameBelow values n).ne_nil hc)).mapResult _

end Evaluation

theorem Sheet.evaluate_balanced (s : Sheet) : s.evaluate.Balanced .snapshot := by
  have h := Passage.balanced_inScope .snapshot (fun values => Evaluation.evaluateMembers values s.members)
    (Evaluation.evaluateMembers_tidy (Chain.enter_ne_nil _) s.members)
    (Evaluation.evaluateMembers_sameBelow _ s.members)
  simp only [Sheet.evaluate]
  split
  · rename_i f hf
    exact ⟨h.chain, h.replay, h.nested, h.bound, h.closed,
      fun cause hcause => h.noFault cause (hf.trans (by cases hcause; rfl))⟩
  · exact ⟨h.chain, h.replay, h.nested, h.bound, h.closed, by simp⟩

namespace Evaluation

open Position

/-- At the position stands an if-clause that is come to, with a boolean for its condition. -/
structure Decided (root : Node) (p : Position) : Prop where
  selected : Selected root p
  clause : ∃ n, root.at? p = some n ∧ n.condition?.isSome
  bool : ∃ m b, Denotes root (p ++ [0]) ⟨m, .bool b⟩

section

variable {root n : Node} {p : Position}

/-- Below a member without a branch nothing is decided but the member itself. -/
theorem decided_of_no_branch (hp : Selected root p) (hn : root.at? p = some n)
    (hbranch : ∀ r, ¬ InBranch root p n r) (helse : ∀ m body, n ≠ .elseClause m body) :
    {q | p <+: q ∧ Decided root q} = {q | q = p ∧ Decided root p} := by
  ext q
  constructor
  · rintro ⟨hpq, hd⟩
    obtain rfl := hd.selected.eq_of_no_branch hp hn hpq hbranch helse
    exact ⟨rfl, hd⟩
  · rintro ⟨rfl, hd⟩
    exact ⟨List.prefix_refl _, hd⟩

theorem encard_undecided (hp : Selected root p) (hn : root.at? p = some n)
    (hbranch : ∀ r, ¬ InBranch root p n r) (helse : ∀ m body, n ≠ .elseClause m body)
    (hnot : ¬ Decided root p) : {q | p <+: q ∧ Decided root q}.encard = 0 := by
  rw [decided_of_no_branch hp hn hbranch helse]
  simp [hnot]

theorem not_decided {k : Constant} (hv : Denotes root (p ++ [0]) k) (hb : ∀ b, k.value ≠ .bool b) :
    ¬ Decided root p := by
  intro hd
  obtain ⟨m, b, hbool⟩ := hd.bool
  exact hb b (congrArg Constant.value (hv.unique hbool))

/-- An if-clause that selects no branch counts once. -/
theorem encard_alone (hd : Decided root p) (hn : root.at? p = some n)
    (hbranch : ∀ r, ¬ InBranch root p n r) (helse : ∀ m body, n ≠ .elseClause m body) :
    {q | p <+: q ∧ Decided root q}.encard = 1 := by
  rw [decided_of_no_branch hd.selected hn hbranch helse]
  simp [hd]

/-- An if-clause counts once, and with it what is decided in the branch that it selects. -/
theorem encard_branch {b : Position} {first count : Nat} (hd : Decided root p) (hpb : p <+: b)
    (hcover : ∀ q, Selected root q → p <+: q → q ≠ p → BelowRun b first count q) :
    {q | p <+: q ∧ Decided root q}.encard = {q | BelowRun b first count q ∧ Decided root q}.encard + 1 := by
  have hself : p ∉ {q | BelowRun b first count q ∧ Decided root q} := by
    rintro ⟨⟨i, -, hi⟩, -⟩
    have hlength' := hi.length_le
    have hlength := hpb.length_le
    simp only [List.length_append, List.length_singleton] at hlength'
    omega
  rw [← Set.encard_insert_of_notMem hself]
  congr 1
  ext q
  constructor
  · rintro ⟨hpq, hq⟩
    by_cases hqp : q = p
    · exact Or.inl hqp
    · exact Or.inr ⟨hcover q hq.selected hpq hqp, hq⟩
  · rintro (rfl | ⟨hq, hq'⟩)
    · exact ⟨List.prefix_refl _, hd⟩
    · exact ⟨hpb.trans hq.isPrefix, hq'⟩

/-- What is decided below members in a row is decided below the first of them or below the others. -/
theorem encard_belowRun_succ {b : Position} {first count : Nat} :
    {q | BelowRun b first (count + 1) q ∧ Decided root q}.encard =
      {q | b ++ [first] <+: q ∧ Decided root q}.encard +
        {q | BelowRun b (first + 1) count q ∧ Decided root q}.encard := by
  rw [← Set.encard_union_eq]
  · congr 1
    ext q
    simp only [Set.mem_ofPred_eq, Set.mem_union, belowRun_succ, or_and_right]
  · rw [Set.disjoint_left]
    rintro q ⟨hfirst, -⟩ ⟨hrest, -⟩
    have hbefore := hrest.endsBefore hfirst
    exact hbefore.asymm hbefore

end

/-- A member that is flattened to the end enters a scope for each if-clause that is decided in it. -/
def MemberEnters (root n : Node) : Prop :=
  ∀ p values out, root.at? p = some n → Selected root p → values.AgreesAt (Denotes root) root p →
    (flattenMember values n).result = .ok out →
      (Call.enters (flattenMember values n).calls : ℕ∞) = {q | p <+: q ∧ Decided root q}.encard

/-- The same of members of a block that stand next to each other. -/
def MembersEnter (root : Node) (ns : List Node) : Prop :=
  ∀ b first values out, InRow root b first values ns → (flatten values ns).result = .ok out →
    (Call.enters (flatten values ns).calls : ℕ∞) =
      {q | BelowRun b first ns.length q ∧ Decided root q}.encard

theorem membersEnter_cons {root n : Node} {ns : List Node} (hn : MemberEnters root n)
    (hns : MembersEnter root ns) : MembersEnter root (n :: ns) := by
  intro b first values out hrow hok
  obtain ⟨hat, hsel, ha⟩ := hrow.head
  obtain ⟨here, hhere, hrest⟩ := Passage.andThen_result_ok.mp hok
  obtain ⟨others, hothers, -⟩ := Passage.mapResult_ok.mp hrest
  have hfirst := hn (b ++ [first]) values here hat hsel ha hhere
  have hothers := hns b (first + 1) _ others (hrow.tail hhere) hothers
  rw [flatten, Passage.andThen_of_ok hhere, List.length_cons, encard_belowRun_succ, ← hfirst, ← hothers,
    Call.enters_append]
  exact Nat.cast_add _ _

/-- A body or branch in a scope of its own enters one scope more. -/
theorem MembersEnter.scope {root : Node} {body : List Node} (h : MembersEnter root body) {b : Position}
    {first : Nat} {values : Values} (hrow : InRow root b first values body) {out : List Node}
    (hok : (flatten values body).result = .ok out) :
    (Call.enters (.enter :: ((flatten values body).calls ++ [.leave])) : ℕ∞) =
      {q | BelowRun b first body.length q ∧ Decided root q}.encard + 1 := by
  rw [Call.enters_block, ← h b first values out hrow hok]
  exact Nat.cast_add _ _

mutual

theorem memberEnters (root n : Node) : MemberEnters root n := by
  intro p values out hn hp ha hok
  have hplain : n.condition? = none → (∀ m body, n ≠ .elseClause m body) →
      {q | p <+: q ∧ Decided root q}.encard = 0 := by
    intro hc helse
    refine encard_undecided hp hn (not_inBranch_of_condition hc) helse fun hd => ?_
    obtain ⟨n', hn', hc'⟩ := hd.clause
    obtain rfl := Option.some.inj (hn.symm.trans hn')
    simp [hc] at hc'
  cases n with
  | declaration m x e =>
    rw [hplain rfl nofun]
    simp only [flattenMember]
    cases fold values e <;> rfl
  | assignment m x e =>
    rw [hplain rfl nofun]
    exact congrArg Nat.cast (enters_bindValue _ values x e)
  | ifClause m c body =>
    simp only [flattenMember, inScope_flatten] at hok ⊢
    cases hc : fold values c with
    | error f =>
      rw [hc] at hok
      cases hok
    | ok k =>
      have hv := denotes_condition ha hn rfl hc
      simp only [hc] at hok ⊢
      obtain ⟨m', v⟩ := k
      cases v with
      | bool b =>
        have hd : Decided root p := ⟨hp, ⟨_, hn, rfl⟩, m', b, hv⟩
        cases b with
        | true =>
          rw [encard_branch hd (List.prefix_refl p) fun q hq hpq hne => hq.inBody hp hn rfl hv rfl hpq hne]
          exact (membersEnter root body).scope (.body hn rfl hp rfl hv ha) hok
        | false =>
          dsimp only
          rw [Passage.inScope_eq (.refl values.enter), encard_alone hd hn (fun r hr => ?_) nofun]
          · rfl
          · cases hr with
            | body _ htrue => cases hv.unique htrue
      | pixel | percentage | scalar | color =>
        exact (encard_undecided hp hn (not_inBranch_of_undecided hv nofun) nofun
          (not_decided hv nofun)).symm
  | ifElse m c body em ebody =>
    simp only [flattenMember, inScope_flatten] at hok ⊢
    cases hc : fold values c with
    | error f =>
      rw [hc] at hok
      cases hok
    | ok k =>
      have hv := denotes_condition ha hn rfl hc
      simp only [hc] at hok ⊢
      obtain ⟨m', v⟩ := k
      cases v with
      | bool b =>
        have hd : Decided root p := ⟨hp, ⟨_, hn, rfl⟩, m', b, hv⟩
        cases b with
        | true =>
          rw [encard_branch hd (List.prefix_refl p) fun q hq hpq hne => hq.inBody hp hn rfl hv rfl hpq hne]
          exact (membersEnter root body).scope (.body hn rfl hp rfl hv ha) hok
        | false =>
          rw [encard_branch hd (List.prefix_append p _) fun q hq hpq hne => hq.inElseBody hp hn hv hpq hne]
          exact (membersEnter root ebody).scope (.elseBody hn hp hv ha) hok
      | pixel | percentage | scalar | color =>
        exact (encard_undecided hp hn (not_inBranch_of_undecided hv nofun) nofun
          (not_decided hv nofun)).symm
  | literal | reference | operation | elseClause | rule | sheet | foreign => cases hok

theorem membersEnter (root : Node) (ns : List Node) : MembersEnter root ns := by
  cases ns with
  | nil =>
    intro b first values out _ _
    have hempty : {q | BelowRun b first 0 q ∧ Decided root q} = ∅ :=
      Set.eq_empty_of_forall_notMem fun q hq => not_belowRun_zero hq.1
    rw [List.length_nil, hempty, Set.encard_empty]
    rfl
  | cons n ns => exact membersEnter_cons (memberEnters root n) (membersEnter root ns)

end

/-- What is selected below a member of the sheet is selected below a rule. -/
theorem Selected.exists_rule {root : Node} {q : Position} (h : Selected root q) {k : Nat}
    (hk : [k] <+: q) : ∃ m ss body, root.at? [k] = some (.rule m ss body) := by
  induction h with
  | @ruleMember k' m ss body i hn hi =>
    obtain rfl : k = k' := by simpa using hk
    exact ⟨m, ss, body, hn⟩
  | branchMember hp hn hq ih =>
    exact ih (List.prefix_of_prefix_length_le hk hq.isPrefix (Nat.le_of_succ_le hp.two_le_length))

theorem evaluateMember_enters {root n : Node} {k : Nat} (hn : root.at? [k] = some n) {values : Values}
    (ha : values.AgreesAt (Denotes root) root [k]) {out : List Node}
    (hok : (evaluateMember values n).result = .ok out) :
    (Call.enters (evaluateMember values n).calls : ℕ∞) =
      (if n.isRule then 1 else 0) + {q | [k] <+: q ∧ Decided root q}.encard := by
  cases n with
  | assignment m x e =>
    have hempty : {q | [k] <+: q ∧ Decided root q} = ∅ := by
      refine Set.eq_empty_of_forall_notMem fun q ⟨hkq, hd⟩ => ?_
      obtain ⟨m', ss, body, hrule⟩ := hd.selected.exists_rule hkq
      cases hn.symm.trans hrule
    rw [hempty, Set.encard_empty]
    exact congrArg Nat.cast (enters_bindValue _ values x e)
  | rule m ss body =>
    have hset : {q | [k] <+: q ∧ Decided root q} = {q | BelowRun [k] 0 body.length q ∧ Decided root q} := by
      ext q
      constructor
      · rintro ⟨hkq, hd⟩
        obtain ⟨i, hi, hpre⟩ := hd.selected.exists_ruleMember hkq hn
        exact ⟨⟨i, hi, by rwa [Nat.zero_add]⟩, hd⟩
      · rintro ⟨hq, hd⟩
        exact ⟨hq.isPrefix, hd⟩
    simp only [evaluateMember, inScope_flatten] at hok ⊢
    cases hr : (flatten values.enter body).result with
    | error f => simp [hr] at hok
    | ok body' =>
      dsimp only
      rw [(membersEnter root body).scope (.rule hn ha) hr, hset, Node.isRule, if_pos rfl, add_comm]
  | literal | reference | operation | declaration | ifClause | ifElse | elseClause | sheet
  | foreign => cases hok

/-- The members of a sheet from number `first` on. -/
theorem evaluateMembers_enters {s : Sheet} {ns : List Node} {first : Nat}
    (hns : ∀ i, ns[i]? = s.members[first + i]?) {values : Values}
    (ha : ns ≠ [] → values.AgreesAt (Denotes s.node) s.node [first]) {out : List Node}
    (hok : (evaluateMembers values ns).result = .ok out) :
    (Call.enters (evaluateMembers values ns).calls : ℕ∞) =
      ns.countP Node.isRule + {q | BelowRun [] first ns.length q ∧ Decided s.node q}.encard := by
  induction ns generalizing first values out with
  | nil =>
    have hempty : {q | BelowRun [] first 0 q ∧ Decided s.node q} = ∅ :=
      Set.eq_empty_of_forall_notMem fun q hq => not_belowRun_zero hq.1
    rw [List.length_nil, hempty, Set.encard_empty]
    rfl
  | cons n ns ih =>
    obtain ⟨here, hhere, hrest⟩ := Passage.andThen_result_ok.mp hok
    obtain ⟨others, hothers, -⟩ := Passage.mapResult_ok.mp hrest
    have hn : s.members[first]? = some n := (hns 0).symm
    have hnext : ns ≠ [] → (evaluateMember values n).chain.AgreesAt (Denotes s.node) s.node [first + 1] := by
      intro hne
      obtain ⟨m, ms, rfl⟩ := List.exists_cons_of_ne_nil hne
      exact agreesAt_nextMember hn (ha (by simp)) hhere
        (List.getElem?_eq_some_iff.mp (hns 1).symm).1
    have hfirst := evaluateMember_enters (s.at?_member hn) (ha (by simp)) hhere
    have hothers := ih (fun i => by rw [Nat.add_right_comm]; exact hns (i + 1)) hnext hothers
    rw [evaluateMembers, Passage.andThen_of_ok hhere, List.length_cons, encard_belowRun_succ,
      List.countP_cons]
    simp only [Passage.mapResult, Call.enters_append, Nat.cast_add, hfirst, hothers, List.nil_append]
    split <;> simp [add_assoc, add_left_comm]

end Evaluation

/-- An evaluation that ends normally enters one scope for the sheet, one for each of its rules and one for
each if-clause that is decided. -/
theorem Sheet.evaluate_enters {s : Sheet} (h : s.evaluate.result = .ok ()) :
    (Call.enters s.evaluate.calls : ℕ∞) =
      1 + s.rules.length + {q | Evaluation.Decided s.node q}.encard := by
  obtain ⟨out, hok, -⟩ := Evaluation.members_of_evaluate h
  have henters := Evaluation.evaluateMembers_enters (fun i => by rw [Nat.zero_add])
    (fun _ => Evaluation.agreesAt_firstMember s) hok
  have hset : {q | Position.BelowRun [] 0 s.members.length q ∧ Evaluation.Decided s.node q} =
      {q | Evaluation.Decided s.node q} := by
    ext q
    refine ⟨fun hq => hq.2, fun hd => ⟨?_, hd⟩⟩
    obtain ⟨k, r, rfl⟩ := List.exists_cons_of_length_pos
      (Nat.lt_of_lt_of_le Nat.zero_lt_two hd.selected.two_le_length)
    obtain ⟨m, ss, body, hrule⟩ := hd.selected.exists_rule ⟨r, rfl⟩
    have hk : s.members[k]? = some (.rule m ss body) := by
      simpa [Sheet.node, Node.at?, Node.children] using hrule
    exact ⟨k, (List.getElem?_eq_some_iff.mp hk).1, r, by simp⟩
  have hcalls : s.evaluate.calls = .enter ::
      ((Evaluation.evaluateMembers (Chain.empty .snapshot).enter s.members).calls ++ [.leave]) := by
    simp only [Sheet.evaluate, Evaluation.inScope_evaluateMembers, hok]
  rw [hcalls, Call.enters_block, Nat.cast_add, henters, hset, Sheet.rules, List.countP_eq_length_filter]
  push_cast
  ac_rfl

/-- How many if-clauses are decided, when the scopes and the rules are counted. -/
theorem encard_of_enters {enters rules k : Nat} {decided : Set Position}
    (h : (enters : ℕ∞) = 1 + rules + decided.encard) (hk : enters = 1 + rules + k) : decided.encard = k := by
  rw [hk, Nat.cast_add, Nat.cast_add, Nat.cast_one] at h
  exact (ENat.add_right_injective_of_ne_top (by exact_mod_cast ENat.natCast_ne_top (1 + rules)) h).symm

/-- Both passes, on every sheet and wherever they end, work on one chain that they leave as empty as it was,
in scopes that are nested. A check that ends normally enters one scope for the sheet and one for each rule,
if-clause and else-clause, and goes as deep as there are blocks in each other. An evaluation that ends
normally enters one for the sheet, one for each rule of the sheet and one for each if-clause that it comes
to with a boolean for its condition; in a well-placed sheet there are no other rules. -/
theorem scopes_balanced (s : Sheet) :
    (∀ table, (s.check table).Balanced .lexical) ∧ s.evaluate.Balanced .snapshot ∧
      (∀ table, (s.check table).result = .ok () →
        Call.enters (s.check table).calls = 1 + s.node.walk.countP Node.isBlock ∧
          IsGreatest {k | ∃ bs, s.node.BlockChain bs ∧ bs.length = k}
            (Call.maxDepth (s.check table).calls 0)) ∧
      (s.evaluate.result = .ok () → (Call.enters s.evaluate.calls : ℕ∞) =
        1 + s.rules.length + {q | Evaluation.Decided s.node q}.encard) ∧
      (s.isWellPlaced = true → s.rules.length = s.node.walk.countP Node.isRule) := by
  refine ⟨fun table => s.check_balanced table, s.evaluate_balanced, fun table h => ?_,
    Sheet.evaluate_enters, fun hw => ?_⟩
  · obtain ⟨henters, hdepth⟩ := Sheet.check_opens h
    rw [hdepth]
    exact ⟨henters, s.node.isGreatest_nesting⟩
  · rw [Node.countP_walk, Node.countBelow_singleton, Sheet.rules, ← List.countP_eq_length_filter,
      ← Node.rules_sheetMembers hw]
    exact (Nat.zero_add _).symm

/-- A branch that is taken, with an if-clause in it that has none to take, beside one that is not: the check
enters them all, one inside the other or side by side, and the evaluation those that it comes to. -/
theorem scopes_balanced_branches :
    let pixels : Int → Node := fun n => .declaration none "width" (.literal none (.pixel n))
    let clause : Bool → List Node → Node := fun b => .ifClause none (.literal none (.bool b))
    let s : Sheet := ⟨none, [.assignment none "A" (.literal none (.bool true)),
      .rule none [.tag "p"] [.ifElse none (.reference none "A") [clause false [pixels 1], pixels 2]
        none [clause true [pixels 3]], pixels 4]]⟩
    (s.check .builtin).result = .ok () ∧ s.evaluate.result = .ok () ∧ s.isWellPlaced = true ∧
      s.node.walk.countP Node.isBlock = 5 ∧
        IsGreatest {k | ∃ bs, s.node.BlockChain bs ∧ bs.length = k} 4 ∧
          {q | Evaluation.Decided s.node q}.encard = 2 ∧ s.node.walk.countP Node.isRule = 1 := by
  intro pixels clause s
  have hcheck : (s.check .builtin).result = .ok () := by decide +kernel
  have hevaluate : s.evaluate.result = .ok () := by decide +kernel
  have hwell : s.isWellPlaced = true := by decide +kernel
  have henters : Call.enters (s.check .builtin).calls = 6 := by decide +kernel
  have hdepth : Call.maxDepth (s.check .builtin).calls 0 = 4 := by decide +kernel
  have henters' : Call.enters s.evaluate.calls = 4 := by decide +kernel
  obtain ⟨-, -, hchecked, hevaluated, hrules⟩ := scopes_balanced s
  obtain ⟨hblocks, hgreatest⟩ := hchecked .builtin hcheck
  refine ⟨hcheck, hevaluate, hwell, by omega, hdepth ▸ hgreatest, ?_, (hrules hwell).symm⟩
  have hdecided : ((4 : Nat) : ℕ∞) = 1 + ((1 : Nat) : ℕ∞) + {q | Evaluation.Decided s.node q}.encard :=
    henters' ▸ hevaluated hevaluate
  exact encard_of_enters hdecided rfl

end StyleLang
