import StyleLang.Proofs.Evaluation.Isolation
import StyleLang.Proofs.Evaluation.Refolding

/-!
# Evaluations that stop at a fault

An evaluation that does not end normally stops in one member of the sheet. The rules before it are left as
if the sheet ended there, the members after it are not touched, and of the rule that it stopped in the
declarations are folded up to the place of the fault. No member is taken away.
-/

namespace StyleLang

open Position

/-- The sheet with its first `k` members only. -/
def Sheet.cut (s : Sheet) (k : Nat) : Sheet := ⟨s.mark, s.members.take k⟩

namespace Evaluation

/-- In the rule that is member `k`, evaluation is stuck at `w` and at no selected member before it. -/
structure StopsAt (root : Node) (k : Nat) (w : Position) : Prop where
  below : [k] <+: w
  selected : Selected root w
  stuck : StuckAt root w
  first : ∀ q, [k] <+: q → Selected root q → EndsBefore q w → ¬ StuckAt root q

end Evaluation

/-- Evaluation stops at the fault in member `k`, and this is the tree that it leaves. -/
structure Sheet.StoppedIn (s : Sheet) (f : Fault) (k : Nat) : Prop where
  isLt : k < s.members.length
  cut_ok : ∀ i, (s.cut i).evaluate.result = .ok () ↔ i ≤ k
  cut_error : ∀ i, k < i → (s.cut i).evaluate.result = .error f
  mark : s.evaluate.tree.mark = s.mark
  length : s.evaluate.tree.members.length = s.members.length
  before : ∀ i n, i < k → s.members[i]? = some n → s.evaluate.tree.members[i]? =
    if n.isRule then (s.cut k).evaluate.tree.members[s.rulesBefore i]? else some n
  after : ∀ i, k < i → s.evaluate.tree.members[i]? = s.members[i]?
  other : ∀ n, s.members[k]? = some n → n.isRule = false → s.evaluate.tree.members[k]? = some n
  /-- The selected declarations before the place of the fault hold what they denote. -/
  rule : ∀ m ss body, s.members[k]? = some (.rule m ss body) → ∃ w values,
    Evaluation.StopsAt s.node k w ∧
      (∀ q c, values q = some c ↔ Evaluation.Folds s.node q c ∧ EndsBefore q w) ∧
        s.evaluate.tree.members[k]? = some (.rule m ss (Node.refoldAll values [k] 0 body))

namespace Evaluation

/-- A relation that gives each position one constant at most, as a function. -/
theorem exists_values (holds : Position → Constant → Prop)
    (h : ∀ q c c', holds q c → holds q c' → c = c') :
    ∃ values : Position → Option Constant, ∀ q c, values q = some c ↔ holds q c := by
  classical
  refine ⟨fun q => if hq : ∃ c, holds q c then some hq.choose else none, fun q c => ?_⟩
  by_cases hq : ∃ c, holds q c
  · simp only [dif_pos hq, Option.some.injEq]
    constructor
    · rintro rfl
      exact hq.choose_spec
    · exact fun hc => h q _ c hq.choose_spec hc
  · simp only [dif_neg hq]
    exact ⟨nofun, fun hc => absurd ⟨c, hc⟩ hq⟩

section

variable {values : Values} {n : Node}

/-- Nothing but a rule is changed. -/
theorem evaluateMember_tree (hn : n.isRule = false) : (evaluateMember values n).tree = n := by
  cases n with
  | assignment m x e => exact bindValue_tree _ values x e
  | rule => cases hn
  | literal | reference | operation | declaration | ifClause | ifElse | elseClause | sheet | foreign => rfl

/-- What stands in the place of a member that was evaluated to the end is what came of it. -/
theorem evaluateMember_tree_of_ok {out : List Node} (h : (evaluateMember values n).result = .ok out) :
    out = if n.isRule then [(evaluateMember values n).tree] else [] := by
  cases n with
  | rule m ss body =>
    obtain ⟨body', hbody, rfl⟩ := evaluateMember_rule_ok.mp h
    simp only [evaluateMember, inScope_flatten, hbody, Node.isRule, if_true]
  | assignment m x e =>
    obtain ⟨values', hrun⟩ : ∃ values', SheetMemberRun values (.assignment m x e) out values' :=
      ⟨_, sheetMemberRun_of_ok h⟩
    cases hrun
    rfl
  | literal | reference | operation | declaration | ifClause | ifElse | elseClause | sheet
  | foreign => cases h

/-- A rule that was not evaluated to the end has its declarations folded up to the first member at which
evaluation is stuck. -/
theorem evaluateMember_rule_stopped {root : Node} {k : Nat} {m : Mark} {ss : List Selector}
    {body : List Node} (hn : root.at? [k] = some (.rule m ss body))
    (ha : values.AgreesAt (Denotes root) root [k]) {f : Fault}
    (h : (evaluateMember values (.rule m ss body)).result = .error f) :
    ∃ w given, StopsAt root k w ∧ (∀ q c, given q = some c ↔ Folds root q c ∧ EndsBefore q w) ∧
      (evaluateMember values (.rule m ss body)).tree =
        .rule m ss (Node.refoldAll given [k] 0 body) := by
  simp only [evaluateMember, inScope_flatten] at h ⊢
  cases hr : (flatten values.enter body).result with
  | ok body' => simp [hr] at h
  | error f' =>
    obtain ⟨stop, hstop, hleft⟩ := membersLeave root body [k] 0 _ (.rule hn ha) values.enter_ne_nil
    cases stop with
    | none => simp [hr] at hstop
    | some w =>
      obtain ⟨hbelow, hsel, hstuck⟩ := hleft.stopped w rfl
      obtain ⟨given, hgiven⟩ := exists_values (fun q c => Folds root q c ∧ EndsBefore q w)
        fun q c c' hc hc' => hc.1.unique hc'.1
      have hpassed : ∀ q, Passed (some w) q ↔ EndsBefore q w := fun q => by simp [Passed]
      refine ⟨w, given, ⟨hbelow.isPrefix, hsel, hstuck, fun q hq hq' hlt => ?_⟩, hgiven, ?_⟩
      · obtain ⟨i, hi, hpre⟩ := hq'.exists_ruleMember hq hn
        exact hleft.passed q ⟨i, hi, by rwa [Nat.zero_add]⟩ hq' ((hpassed q).mpr hlt)
      · rw [hleft.tree_eq given fun q c _ => by rw [hgiven, hpassed]]

end

/-- Members that were evaluated to the end: assignments as they were, and each rule as what came of it. -/
theorem gather_finished {values : Values} {ns out : List Node}
    (h : (Passage.gather evaluateMember values ns).result = .ok out) {i : Nat} {n : Node}
    (hn : ns[i]? = some n) :
    (Passage.gather evaluateMember values ns).tree[i]? =
      if n.isRule then out[((ns.take i).filter Node.isRule).length]? else some n := by
  induction ns generalizing values out i with
  | nil => simp at hn
  | cons m ms ih =>
    rw [Passage.gather] at h
    obtain ⟨here, hm, hrest⟩ := Passage.andThen_result_ok.mp h
    obtain ⟨others, hothers, rfl⟩ := Passage.mapResult_ok.mp hrest
    rw [Passage.gather, Passage.andThen_of_ok hm]
    obtain rfl := evaluateMember_tree_of_ok hm
    cases i with
    | zero =>
      obtain rfl := Option.some.inj hn
      cases hr : m.isRule with
      | true => simp
      | false => simp [evaluateMember_tree hr]
    | succ i =>
      have hi := ih hothers hn
      simp only [Passage.mapResult, List.getElem?_cons_succ, hi]
      cases hr : m.isRule with
      | true => simp [hr]
      | false => simp [hr]

theorem evaluate_of_members_error {s : Sheet} {f : Fault}
    (h : (evaluateMembers (Chain.empty .snapshot).enter s.members).result = .error f) :
    s.evaluate.result = .error f ∧ s.evaluate.tree =
      ⟨s.mark, (evaluateMembers (Chain.empty .snapshot).enter s.members).tree⟩ := by
  simp only [Sheet.evaluate, inScope_evaluateMembers, h]
  exact ⟨trivial, trivial⟩

theorem members_of_evaluate_error {s : Sheet} {f : Fault} (h : s.evaluate.result = .error f) :
    (evaluateMembers (Chain.empty .snapshot).enter s.members).result = .error f := by
  cases hr : (evaluateMembers (Chain.empty .snapshot).enter s.members).result with
  | ok out =>
    rw [(evaluate_of_members hr).1] at h
    cases h
  | error f' =>
    rw [(evaluate_of_members_error hr).1] at h
    cases h
    rfl

/-- The member that an evaluation stopped in, between those that it came past and the rest. -/
theorem exists_stopped {s : Sheet} {f : Fault} (h : s.evaluate.result = .error f) :
    ∃ before n after first, s.members = before ++ n :: after ∧
      (Passage.gather evaluateMember (Chain.empty .snapshot).enter before).result = .ok first ∧
      (evaluateMember (chainAfter before) n).result = .error f ∧ s.evaluate.tree = ⟨s.mark,
        (Passage.gather evaluateMember (Chain.empty .snapshot).enter before).tree ++
          (evaluateMember (chainAfter before) n).tree :: after⟩ := by
  have hmembers := members_of_evaluate_error h
  obtain ⟨-, htree⟩ := evaluate_of_members_error hmembers
  rw [evaluateMembers_eq_gather] at hmembers htree
  obtain ⟨before, n, after, first, hs, hfirst, hn, hleft⟩ := Passage.gather_stopped hmembers
  exact ⟨before, n, after, first, hs, hfirst, hn, by rw [htree, hleft, chainAfter]⟩

theorem evaluate_cut_ok {s : Sheet} {before rest first : List Node} (hs : s.members = before ++ rest)
    (h : (Passage.gather evaluateMember (Chain.empty .snapshot).enter before).result = .ok first)
    {i : Nat} (hi : i ≤ before.length) : (s.cut i).evaluate.result = .ok () := by
  have htake : (s.cut i).members = before.take i := by
    rw [Sheet.cut, hs, List.take_append_of_le_length hi]
  rw [← List.take_append_drop i before] at h
  obtain ⟨part, -, hpart, -, -⟩ := Passage.gather_append_ok.mp h
  rw [← htake, ← evaluateMembers_eq_gather] at hpart
  exact (evaluate_of_members hpart).1

/-- Cut off in front of the fault, the sheet comes to what the rules before it came to. -/
theorem evaluate_cut_members {s : Sheet} {before rest first : List Node} (hs : s.members = before ++ rest)
    (h : (Passage.gather evaluateMember (Chain.empty .snapshot).enter before).result = .ok first) :
    (s.cut before.length).evaluate.tree.members = first := by
  have htake : (s.cut before.length).members = before := by simp [Sheet.cut, hs]
  rw [← htake, ← evaluateMembers_eq_gather] at h
  rw [(evaluate_of_members h).2]

/-- Cut off anywhere behind the fault, the sheet comes to the same fault. -/
theorem evaluate_cut_error {s : Sheet} {before after first : List Node} {n : Node} {f : Fault}
    (hs : s.members = before ++ n :: after)
    (h : (Passage.gather evaluateMember (Chain.empty .snapshot).enter before).result = .ok first)
    (hn : (evaluateMember (chainAfter before) n).result = .error f) (i : Nat) (hi : before.length < i) :
    (s.cut i).evaluate.result = .error f := by
  have htake : (s.cut i).members = before ++ n :: after.take (i - before.length - 1) := by
    obtain ⟨j, rfl⟩ := Nat.exists_eq_add_of_lt hi
    have hall : before.take (before.length + (j + 1)) = before := List.take_of_length_le (by omega)
    simp [Sheet.cut, hs, List.take_append, Nat.add_assoc, hall]
  refine (evaluate_of_members_error ?_).1
  rw [evaluateMembers_eq_gather, htake]
  exact Passage.gather_append_of_error h hn _

/-- An evaluation that does not end normally stops in one member: cut off before it the sheet evaluates, and
cut off anywhere behind it there is the same fault. Every rule before the member is left as it is in the
sheet that is cut off there, every member after it is not touched, and in a rule that evaluation stopped in
the selected declarations before the place of the fault hold what they denote. All the rest is as it was. -/
theorem evaluate_stopped (s : Sheet) (f : Fault) (h : s.evaluate.result = .error f) :
    ∃ k, s.StoppedIn f k := by
  obtain ⟨before, n, after, first, hs, hfirst, hn, htree⟩ := exists_stopped h
  have hlength : (Passage.gather evaluateMember (Chain.empty .snapshot).enter before).tree.length =
      before.length := Passage.gather_length _ _
  have hk : s.members[before.length]? = some n := by simp [hs]
  have hcut := evaluate_cut_error hs hfirst hn
  have hfinished := evaluate_cut_members hs hfirst
  -- what stands in front of the member, in its place and behind it
  have hfront : ∀ i, i < before.length → s.evaluate.tree.members[i]? =
      (Passage.gather evaluateMember (Chain.empty .snapshot).enter before).tree[i]? := by
    intro i hi
    rw [htree, List.getElem?_append_left (by omega)]
  have hplace : s.evaluate.tree.members[before.length]? =
      some (evaluateMember (chainAfter before) n).tree := by
    rw [htree, ← hlength, List.getElem?_append_right le_rfl, Nat.sub_self]
    rfl
  exact ⟨before.length, {
    isLt := by simp [hs]
    cut_ok := fun i => by
      refine ⟨fun hi => ?_, evaluate_cut_ok hs hfirst⟩
      by_contra hlt
      rw [hcut i (by omega)] at hi
      cases hi
    cut_error := hcut
    mark := by rw [htree]
    length := by simp [htree, hs, hlength]
    before := fun i m hi hm => by
      rw [hs, List.getElem?_append_left hi] at hm
      rw [hfront i hi, gather_finished hfirst hm, hfinished, Sheet.rulesBefore, hs,
        List.take_append_of_le_length (by omega)]
    after := fun i hi => by
      rw [htree, hs, List.getElem?_append_right (by omega), List.getElem?_append_right (by omega), hlength]
      obtain ⟨j, rfl⟩ := Nat.exists_eq_add_of_lt hi
      simp [Nat.add_assoc]
    other := fun m hm hr => by
      obtain rfl := Option.some.inj (hk.symm.trans hm)
      rw [hplace, evaluateMember_tree hr]
    rule := fun m ss body hm => by
      obtain rfl := Option.some.inj (hk.symm.trans hm)
      obtain ⟨w, given, hw, hgiven, hrule⟩ := evaluateMember_rule_stopped (s.at?_member hk)
        (agreesAt_member hs (by simp) hfirst) hn
      exact ⟨w, given, hw, hgiven, by rw [hplace, hrule]⟩ }⟩

/-- A rule that is done, and one with an undefined name in the inner of two branches: the declarations
before the name are folded in both branches, and neither what stands behind it nor the other branch. -/
theorem evaluate_stopped_nested :
    let pixels : Int → Node := fun n => .literal none (.pixel n)
    let width : Node → Node := .declaration none "width"
    let x : Node := .reference none "X"
    let inner : Node → Node := fun e => .ifClause none (.literal none (.bool true))
      [.assignment none "X" (pixels 3), width e, width (.reference none "U"), width x]
    let outer : Node → Node → Node := fun d e => .ifElse none (.reference none "A")
      [width d, inner e, width x] none [width x]
    let s : Node → Node → Node → Sheet := fun a d e => ⟨none,
      [.assignment none "A" (.literal none (.bool true)), .assignment none "X" (pixels 1),
        .rule none [.tag "p"] [width a], .rule none [.tag "a"] [outer d e, width x],
        .rule none [.tag "p"] [width x]]⟩
    (s x x x).evaluate.result = .error (.undefinedVariable "U") ∧
      (s x x x).StoppedIn (.undefinedVariable "U") 3 ∧
        (s x x x).evaluate.tree.members = (s (pixels 1) (pixels 1) (pixels 3)).members := by
  intro pixels width x inner outer s
  have herror : (s x x x).evaluate.result = .error (.undefinedVariable "U") := by decide +kernel
  obtain ⟨k, hk⟩ := evaluate_stopped (s x x x) _ herror
  have hle : 3 ≤ k := (hk.cut_ok 3).mp (by decide +kernel)
  have hlt : ¬ 4 ≤ k := fun h => absurd ((hk.cut_ok 4).mpr h) (by decide +kernel)
  obtain rfl : k = 3 := by omega
  exact ⟨herror, hk, by decide +kernel⟩

end Evaluation

end StyleLang
