import StyleLang.Proofs.Evaluation.Faithful
import StyleLang.Proofs.Evaluation.Pipeline

/-!
# Settled sheets

A sheet is settled when its rules declare nothing but literals, each of the type that its property
requires, and no slot in it is filled. What evaluation leaves of a sheet that was checked without
diagnostics is settled, and checking and evaluating a settled sheet leave it as it is. So no more is found
or changed when both are done again.
-/

namespace StyleLang

inductive SettledMember (table : PropertyTable) : Node → Prop
  | declaration {p : String} {v : Literal} (h : ∀ t, table.required p = some t → v.type = t) :
      SettledMember table (.declaration none p (.literal none v))

inductive SettledRule (table : PropertyTable) : Node → Prop
  | rule {ss : List Selector} {body : List Node} (h : ∀ n ∈ body, SettledMember table n) :
      SettledRule table (.rule none ss body)

structure Sheet.IsSettled (table : PropertyTable) (s : Sheet) : Prop where
  mark : s.mark = none
  rules : ∀ n ∈ s.members, SettledRule table n

variable {table : PropertyTable}

theorem SettledMember.plain {n : Node} (h : SettledMember table n) : PlainMember n := by
  cases h with
  | declaration => exact .declaration none _ none _

theorem SettledRule.plain {n : Node} (h : SettledRule table n) : PlainRule n := by
  cases h with
  | rule h => exact .rule none _ fun n hn => (h n hn).plain

theorem Sheet.IsSettled.plain {s : Sheet} (h : s.IsSettled table) : s.IsPlain :=
  fun n hn => (h.rules n hn).plain

namespace Typing

theorem checkProperty_eq_none_iff {p : String} {actual : Option ValueType} {sel : Option String} :
    checkProperty table p actual sel = none ↔ ∀ t, table.required p = some t → actual = some t := by
  unfold checkProperty
  cases table.required p with
  | none => simp
  | some required => simp [eq_comm]

theorem checkMember_settled {n : Node} (h : SettledMember table n) (sel : String) (types : Types) :
    checkMember table sel types n = .done n types () := by
  cases h with
  | @declaration p v hv =>
    have hnone : checkProperty table p (some v.type) (some sel) = none :=
      checkProperty_eq_none_iff.mpr fun t ht => congrArg some (hv t ht)
    rw [checkMember_declaration table (t := some v.type) rfl, hnone]
    rfl

theorem checkBody_settled {body : List Node} (h : ∀ n ∈ body, SettledMember table n) (sel : String)
    (types : Types) : checkBody table sel types body = .done body types () := by
  induction body with
  | nil => rfl
  | cons n ns ih =>
    obtain ⟨hn, hns⟩ := List.forall_mem_cons.mp h
    simp only [checkBody, checkMember_settled hn, Passage.andThen, Passage.done]
    rw [ih hns]
    rfl

theorem checkSheetMember_settled {n : Node} (h : SettledRule table n) (types : Types) :
    checkSheetMember table types n = ⟨n, types, [.enter, .leave], .ok ()⟩ := by
  cases h with
  | rule h =>
    rw [checkSheetMember_rule, checkBody_settled h]
    rfl

theorem checkMembers_settled {ns : List Node} (h : ∀ n ∈ ns, SettledRule table n) (types : Types) :
    (checkMembers table types ns).tree = ns ∧ (checkMembers table types ns).result = .ok () := by
  induction ns with
  | nil => exact ⟨rfl, rfl⟩
  | cons n ns ih =>
    obtain ⟨hn, hns⟩ := List.forall_mem_cons.mp h
    obtain ⟨htree, hresult⟩ := ih hns
    simp only [checkMembers, checkSheetMember_settled hn, Passage.andThen]
    exact ⟨congrArg (n :: ·) htree, hresult⟩

end Typing

/-- Checking finds nothing in a settled sheet and leaves it as it is. -/
theorem Sheet.IsSettled.check {s : Sheet} (h : s.IsSettled table) :
    (s.check table).result = .ok () ∧ (s.check table).tree = s := by
  obtain ⟨htree, hresult⟩ := Typing.checkMembers_settled h.rules (Chain.empty .lexical).enter
  simp only [Sheet.check, Typing.inScope_checkMembers, Passage.mapTree]
  exact ⟨hresult, by rw [htree]⟩

theorem Sheet.IsSettled.hasErrors {s : Sheet} (h : s.IsSettled table) : s.hasErrors = false := by
  refine Node.hasErrors_eq_false_iff.mpr ⟨h.mark, fun n hn => ?_⟩
  cases h.rules n hn with
  | rule hbody =>
    refine Node.hasErrors_eq_false_iff.mpr ⟨rfl, fun d hd => ?_⟩
    cases hbody d hd with
    | declaration =>
      refine Node.hasErrors_eq_false_iff.mpr ⟨rfl, fun e he => ?_⟩
      obtain rfl := List.mem_singleton.mp he
      exact Node.hasErrors_eq_false_iff.mpr ⟨rfl, by simp [Node.children]⟩

namespace Evaluation

theorem flattenMember_plain {n : Node} (h : PlainMember n) (values : Values) :
    flattenMember values n = .done n values [n] := by
  cases h with
  | declaration => rfl

theorem flatten_plain {body : List Node} (h : ∀ n ∈ body, PlainMember n) (values : Values) :
    flatten values body = .done body values body := by
  induction body with
  | nil => rfl
  | cons n ns ih =>
    obtain ⟨hn, hns⟩ := List.forall_mem_cons.mp h
    simp only [flatten, flattenMember_plain hn, Passage.andThen, Passage.done]
    rw [ih hns]
    rfl

theorem evaluateMember_plain {n : Node} (h : PlainRule n) (values : Values) :
    evaluateMember values n = ⟨n, values, [.enter, .leave], .ok [n]⟩ := by
  cases h with
  | rule m ss h =>
    simp only [evaluateMember, inScope_flatten]
    rw [flatten_plain h]
    rfl

theorem evaluateMembers_plain {ns : List Node} (h : ∀ n ∈ ns, PlainRule n) (values : Values) :
    (evaluateMembers values ns).result = .ok ns := by
  induction ns with
  | nil => rfl
  | cons n ns ih =>
    obtain ⟨hn, hns⟩ := List.forall_mem_cons.mp h
    simp only [evaluateMembers, evaluateMember_plain hn, Passage.andThen, Passage.mapResult, ih hns]
    rfl

end Evaluation

/-- Evaluation leaves a plain sheet as it is. -/
theorem Sheet.IsPlain.evaluate {s : Sheet} (h : s.IsPlain) :
    s.evaluate.result = .ok () ∧ s.evaluate.tree = s :=
  Evaluation.evaluate_of_members (Evaluation.evaluateMembers_plain h _)

namespace Evaluation

/-- In a tree without diagnostics no constant has one. -/
theorem Denotes.mark_eq_none {root : Node} (hclean : root.hasErrors = false) {p : Position}
    {c : Constant} (h : Denotes root p c) : c.mark = none := by
  induction h with
  | literal h => exact Node.mark_at? hclean h
  | reference h hq hc ih => exact ih
  | operation => rfl

theorem Becomes.hasErrors {root : Node} (hclean : root.hasErrors = false) {p : Position} {n : Node}
    (h : Becomes root p n) : n.hasErrors = false := by
  cases h with
  | @declaration m name e c hn hv =>
    have hm : m = none := Node.mark_at? hclean hn
    refine Node.hasErrors_eq_false_iff.mpr ⟨hm, fun e he => ?_⟩
    obtain rfl := List.mem_singleton.mp he
    have hc : c.node.mark = none := hv.mark_eq_none hclean
    exact Node.hasErrors_eq_false_iff.mpr ⟨hc, by simp [Constant.node, Node.children]⟩
  | undecided hn hc hv hb => exact Node.hasErrors_at? hclean hn

theorem RuleBecomes.hasErrors {root : Node} (hclean : root.hasErrors = false) {p : Position}
    {n : Node} (h : RuleBecomes root p n) : n.hasErrors = false := by
  obtain ⟨m, ss, body, out, hn, rfl, origins, hall, -⟩ := h
  have hm : m = none := Node.mark_at? hclean hn
  refine Node.hasErrors_eq_false_iff.mpr ⟨hm, fun d hd => ?_⟩
  obtain ⟨q, hbecomes⟩ := exists_of_forall₂ hall hd
  exact hbecomes.hasErrors hclean

/-- Evaluation fills no slot. -/
theorem evaluate_hasErrors {s : Sheet} (hok : s.evaluate.result = .ok ())
    (hclean : s.hasErrors = false) : s.evaluate.tree.hasErrors = false := by
  obtain ⟨out, hout, htree⟩ := members_of_evaluate hok
  obtain ⟨origins, hall, -⟩ := evaluateMembers_standFor hout
  rw [htree]
  refine Node.hasErrors_eq_false_iff.mpr
    ⟨(Node.hasErrors_eq_false_iff.mp hclean).1, fun n hn => ?_⟩
  obtain ⟨q, hbecomes⟩ := exists_of_forall₂ hall hn
  exact hbecomes.hasErrors hclean

/-- The literal that is left of a declaration has the type that its property requires. -/
theorem Origin.required {s : Sheet} (hw : s.isWellPlaced = true)
    (hclean : (s.check table).tree.hasErrors = false) {q : Position} {n : Node}
    (h : Origin table s q n) : ∃ m p m' v, n = .declaration m p (.literal m' v) ∧
      ∀ t, table.required p = some t → v.type = t := by
  obtain ⟨m, p, e, values, c, sel, types, hn, -, -, rfl, harr, hi⟩ := h
  refine ⟨m, p, c.mark, c.value, rfl, fun t ht => ?_⟩
  cases sel with
  | none =>
    have hp := harr.placed hw hn
    simp [Typing.Placed, Node.isSheetMember, Node.isValue] at hp
  | some sel =>
    have hmark := Node.mark_at? hclean (harr.at?_checked hw hn)
    simp only [Typing.checkedNode, Typing.checkMember_declaration table hi, Passage.done,
      Node.mark] at hmark
    have hnone : Typing.checkProperty table p (some c.value.type) (some sel) = none := by
      obtain rfl := Mark.eq_none_of_fill hmark
      exact hmark
    exact Option.some.inj (Typing.checkProperty_eq_none_iff.mp hnone t ht)

theorem settledMember_of_origin {s : Sheet} (hw : s.isWellPlaced = true)
    (hclean : (s.check table).tree.hasErrors = false) {q : Position} {n : Node}
    (h : Origin table s q n) (hn : n.hasErrors = false) : SettledMember table n := by
  obtain ⟨m, p, m', v, rfl, hv⟩ := h.required hw hclean
  obtain ⟨hm, hchildren⟩ := Node.hasErrors_eq_false_iff.mp hn
  obtain rfl : m = none := hm
  have hliteral := hchildren (.literal m' v) (List.mem_singleton.mpr rfl)
  obtain rfl : m' = none := (Node.hasErrors_eq_false_iff.mp hliteral).1
  exact .declaration hv

/-- What evaluation leaves of a sheet that was checked without diagnostics is settled. -/
theorem evaluate_settled {s : Sheet} (hw : s.isWellPlaced = true)
    (hclean : (s.check table).tree.hasErrors = false) : s.evaluate.tree.IsSettled table := by
  obtain ⟨hok, places, -, -, hall⟩ := sheet_sound hw hclean
  have hs : s.hasErrors = false := by
    rw [← Sheet.check_eq_self hw hclean]
    exact hclean
  obtain ⟨hmark, hmembers⟩ := Node.hasErrors_eq_false_iff.mp (evaluate_hasErrors hok hs)
  refine ⟨hmark, fun n hn => ?_⟩
  obtain ⟨k, m, ss, body, decls, -, rfl, origins, horigins, -⟩ := exists_of_forall₂ hall hn
  obtain ⟨hm, hdecls⟩ := Node.hasErrors_eq_false_iff.mp (hmembers _ hn)
  obtain rfl : m = none := hm
  refine .rule fun d hd => ?_
  obtain ⟨q, horigin⟩ := exists_of_forall₂ horigins hd
  exact settledMember_of_origin hw hclean horigin (hdecls d hd)

end Evaluation

end StyleLang
