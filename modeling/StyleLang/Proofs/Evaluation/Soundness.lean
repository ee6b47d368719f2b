import Mathlib.Data.List.Forall2
import StyleLang.Css
import StyleLang.Proofs.Evaluation.Pass
import StyleLang.Proofs.Tree.Report
import StyleLang.Proofs.Typing.Adequacy

/-!
# Sheets without diagnostics evaluate

On a sheet that a check leaves without diagnostics, evaluation ends normally. Where evaluation comes
to a position, checking came to it too, and every name that has a type there has a constant of that
type. The two passes keep scopes in different ways and see different branches, so they are compared
at the positions that evaluation comes to. Nothing is said of sheets with diagnostics.
-/

namespace StyleLang.Evaluation

open Typing (Types)

/-- Every name with a type, which then is known, has a constant of that type. -/
def Typed (types : Types) (values : Values) : Prop :=
  ∀ x t, types.resolve x = some t → ∃ c, values.resolve x = some c ∧ t = some c.value.type

theorem Typed.enter {types : Types} {values : Values} (h : Typed types values) :
    Typed types.enter values.enter := by
  intro x t hx
  rw [Chain.resolve_enter] at hx
  rw [Chain.resolve_enter]
  exact h x t hx

theorem Typed.bind {types types' : Types} {values values' : Values} (h : Typed types values)
    {x : String} {c : Constant} (ht : types.bind x (some c.value.type) = .ok types')
    (hv : values.bind x c = .ok values') : Typed types' values' := by
  intro y t hy
  rw [Chain.resolve_bind ht] at hy
  rw [Chain.resolve_bind hv]
  by_cases hxy : y = x
  · rw [if_pos hxy] at hy ⊢
    exact ⟨c, rfl, (Option.some.inj hy).symm⟩
  · rw [if_neg hxy] at hy ⊢
    exact h y t hy

theorem typed_empty : Typed (Chain.empty .lexical) (Chain.empty .snapshot) := by
  intro x t hx
  rw [Chain.resolve_empty] at hx
  cases hx

/-- Operands that pass the operand rule combine, to a literal of the operation's type. -/
theorem combine_of_checkOperands {op : Operator} {v w : Literal} {sel : Option String}
    (h : Typing.checkOperands op v.type w.type sel = none) :
    ∃ u, combine? op v w = some u ∧ u.type = Typing.operationType op v.type w.type := by
  cases op <;> cases v <;> cases w <;>
    first
    | exact ⟨_, rfl, rfl⟩
    | simp [Typing.checkOperands, Literal.type] at h

/-- An expression whose inference marks nothing folds to a literal of the inferred type. -/
theorem fold_of_infer {types : Types} {values : Values} (h : Typed types values)
    {sel : Option String} {e : Node} (hv : e.isValue = true)
    (hc : (Typing.infer types sel e).tree.hasErrors = false) :
    ∃ c, fold values e = .ok c ∧ (Typing.infer types sel e).result = .ok (some c.value.type) := by
  cases e with
  | literal m v => exact ⟨⟨m, v⟩, rfl, rfl⟩
  | reference m x =>
    cases hx : types.resolve x with
    | none =>
      have hm := (Node.hasErrors_eq_false_iff.mp hc).1
      simp only [Typing.infer, hx, Node.mark] at hm
      cases m <;> cases hm
    | some t =>
      obtain ⟨c, hvalue, rfl⟩ := h x t hx
      exact ⟨c, by simp only [fold, hvalue], by simp only [Typing.infer, hx]⟩
  | operation m op l r =>
    rw [Node.isValue, Bool.and_eq_true] at hv
    obtain ⟨a, ha⟩ := Typing.infer_ok hv.1 types sel
    obtain ⟨b, hb⟩ := Typing.infer_ok hv.2 types sel
    rw [Typing.infer_operation ha hb] at hc ⊢
    obtain ⟨hm, hchildren⟩ := Node.hasErrors_eq_false_iff.mp hc
    have hlc : (Typing.infer types sel l).tree.hasErrors = false :=
      hchildren _ (by simp [Node.children])
    have hrc : (Typing.infer types sel r).tree.hasErrors = false :=
      hchildren _ (by simp [Node.children])
    obtain ⟨left, hl, hlt⟩ := fold_of_infer h hv.1 hlc
    obtain ⟨right, hr, hrt⟩ := fold_of_infer h hv.2 hrc
    obtain rfl : a = some left.value.type := Except.ok.inj (ha.symm.trans hlt)
    obtain rfl : b = some right.value.type := Except.ok.inj (hb.symm.trans hrt)
    have hpass : Typing.checkOperands op left.value.type right.value.type sel = none := by
      simp only [Node.mark, Typing.operationFault] at hm
      cases m with
      | none => exact hm
      | some d => cases hm
    obtain ⟨u, hu, hut⟩ := combine_of_checkOperands hpass
    refine ⟨⟨none, u⟩, ?_, ?_⟩
    · simp only [fold, hl, hr, Constant.node, combine, hu]
      rfl
    · simp only [Typing.operationResult, hpass, hut]
  | declaration | assignment | ifClause | ifElse | elseClause | rule | sheet | foreign =>
    simp [Node.isValue] at hv

/-- Evaluating the sheet comes to a position with this chain: to every member of the sheet, of a rule
and of a branch that its condition selects. -/
inductive Arrives (s : Sheet) : Position → Values → Prop
  | sheetMember {k} (hk : k < s.members.length) :
      Arrives s [k] (evaluateMembers (Chain.empty .snapshot).enter (s.members.take k)).chain
  | ruleMember {p values m ss body k} (h : Arrives s p values)
      (hn : s.node.at? p = some (.rule m ss body)) (hk : k < body.length) :
      Arrives s (p ++ [k]) (flatten values.enter (body.take k)).chain
  | bodyMember {p values n c m first body k} (h : Arrives s p values) (hn : s.node.at? p = some n)
      (hc : n.condition? = some c) (hf : fold values c = .ok ⟨m, .bool true⟩)
      (hb : n.block? = some (first, body)) (hk : k < body.length) :
      Arrives s (p ++ [first + k]) (flatten values.enter (body.take k)).chain
  | elseMember {p values m c body em ebody m' k} (h : Arrives s p values)
      (hn : s.node.at? p = some (.ifElse m c body em ebody))
      (hf : fold values c = .ok ⟨m', .bool false⟩) (hk : k < ebody.length) :
      Arrives s (p ++ [body.length + 1] ++ [k]) (flatten values.enter (ebody.take k)).chain

theorem Arrives.ne_nil {s : Sheet} {p : Position} {values : Values} (h : Arrives s p values) :
    values.scopes ≠ [] := by
  cases h with
  | sheetMember hk => exact (evaluateMembers_sameBelow _ _).ne_nil (Chain.enter_ne_nil _)
  | ruleMember h hn hk => exact (flatten_sameBelow _ _).ne_nil (Chain.enter_ne_nil _)
  | bodyMember h hn hc hf hb hk => exact (flatten_sameBelow _ _).ne_nil (Chain.enter_ne_nil _)
  | elseMember h hn hf hk => exact (flatten_sameBelow _ _).ne_nil (Chain.enter_ne_nil _)

/-- The member `d` of an evaluated rule is the declaration at `q`, its value folded with the chain that
evaluation came with to a literal of the type inferred with the chain that checking came with. -/
def Origin (table : PropertyTable) (s : Sheet) (q : Position) (d : Node) : Prop :=
  ∃ m name e values c sel types, s.node.at? q = some (.declaration m name e) ∧
    Arrives s q values ∧ fold values e = .ok c ∧ d = .declaration m name (.literal c.mark c.value) ∧
    Typing.Arrives table s q sel types ∧
    (Typing.infer types sel e).result = .ok (some c.value.type)

/-- The members of an evaluated rule, in order, are declarations from different positions below `p`, in
document order. -/
def Survive (table : PropertyTable) (s : Sheet) (p : Position) (out : List Node) : Prop :=
  ∃ origins : List Position, List.Forall₂ (Origin table s) origins out ∧
    origins.Pairwise Position.EndsBefore ∧ ∀ q ∈ origins, p <+: q

theorem Survive.nil (table : PropertyTable) (s : Sheet) (p : Position) : Survive table s p [] :=
  ⟨[], .nil, .nil, by simp⟩

theorem Survive.of_below {table : PropertyTable} {s : Sheet} {p r : Position} {out : List Node}
    (h : Survive table s (p ++ r) out) : Survive table s p out := by
  obtain ⟨origins, hall, hord, hbelow⟩ := h
  exact ⟨origins, hall, hord, fun q hq => (List.prefix_append p r).trans (hbelow q hq)⟩

/-- The survivors of the members before number `k` of a block, and then those of that member. -/
def SurviveBefore (table : PropertyTable) (s : Sheet) (p : Position) (k : Nat) (out : List Node) :
    Prop :=
  ∃ origins : List Position, List.Forall₂ (Origin table s) origins out ∧
    origins.Pairwise Position.EndsBefore ∧ ∀ q ∈ origins, ∃ i < k, (p ++ [i]) <+: q

theorem SurviveBefore.survive {table : PropertyTable} {s : Sheet} {p : Position} {k : Nat}
    {out : List Node} (h : SurviveBefore table s p k out) : Survive table s p out := by
  obtain ⟨origins, hall, hord, hbelow⟩ := h
  refine ⟨origins, hall, hord, fun q hq => ?_⟩
  obtain ⟨i, -, hi⟩ := hbelow q hq
  exact (List.prefix_append p [i]).trans hi

theorem SurviveBefore.append {table : PropertyTable} {s : Sheet} {p : Position} {k : Nat}
    {out here : List Node} (h : SurviveBefore table s p k out)
    (h' : Survive table s (p ++ [k]) here) : SurviveBefore table s p (k + 1) (out ++ here) := by
  obtain ⟨origins, hall, hord, hbelow⟩ := h
  obtain ⟨origins', hall', hord', hbelow'⟩ := h'
  refine ⟨origins ++ origins', List.rel_append hall hall', ?_, ?_⟩
  · rw [List.pairwise_append]
    refine ⟨hord, hord', fun q hq q' hq' => ?_⟩
    obtain ⟨i, hlt, r, rfl⟩ := hbelow q hq
    obtain ⟨r', rfl⟩ := hbelow' q' hq'
    simp only [List.append_assoc, List.singleton_append]
    exact Position.endsBefore_sibling p r r' hlt
  · intro q hq
    rcases List.mem_append.mp hq with hq | hq
    · obtain ⟨i, hlt, hi⟩ := hbelow q hq
      exact ⟨i, by omega, hi⟩
    · exact ⟨k, by omega, hbelow' q hq⟩

/-- What both passes make of a member that they come to at `p`: evaluation ends normally with
declarations of the member, and the chains keep to each other. -/
def MemberSound (table : PropertyTable) (s : Sheet) (sel : String) (p : Position) (n : Node) : Prop :=
  ∀ types values, Typing.Arrives table s p (some sel) types → Arrives s p values →
    Typed types values → ∃ out, (flattenMember values n).result = .ok out ∧ Survive table s p out ∧
      Typed (Typing.checkMember table sel types n).chain (flattenMember values n).chain

section

variable {table : PropertyTable} {s : Sheet} {p : Position} {sel : Option String} {types : Types}
  {values : Values} {n : Node}

/-- An expression of a node that both passes come to folds to a literal of its type. -/
theorem fold_of_arrives (hw : s.isWellPlaced = true) (hclean : (s.check table).tree.hasErrors = false)
    (h : Typing.Arrives table s p sel types) (hn : s.node.at? p = some n) {k : Nat} {e : Node}
    (he : n.expressions[k]? = some e) (htyped : Typed types values) :
    ∃ c, fold values e = .ok c ∧ (Typing.infer types sel e).result = .ok (some c.value.type) := by
  have hv := (h.placed hw hn).expression he
  have hat : s.node.at? (p ++ [k]) = some e := by
    rw [Node.at?_child hn, Node.children_of_expressions he]
  have hchecked := (h.expression hn he).at?_checked hw hat
  rw [Typing.checkedNode_value table sel types hv] at hchecked
  exact fold_of_infer htyped hv (Node.hasErrors_at? hclean hchecked)

/-- The condition of an if-clause that both passes come to folds to a boolean. -/
theorem fold_condition (hw : s.isWellPlaced = true) (hclean : (s.check table).tree.hasErrors = false)
    (h : Typing.Arrives table s p sel types) (hn : s.node.at? p = some n) {c : Node}
    (hc : n.condition? = some c) (htyped : Typed types values) :
    ∃ m b, fold values c = .ok ⟨m, .bool b⟩ := by
  have he : n.expressions[0]? = some c := by
    cases n <;> simp_all [Node.condition?, Node.expressions]
  obtain ⟨⟨m, v⟩, hf, hi⟩ := fold_of_arrives hw hclean h hn he htyped
  obtain ⟨t, hty, hmark⟩ := h.condition_mark hw hn hc
  have hnone : (Typing.checkedNode table sel types n).mark = none :=
    Node.mark_at? hclean (h.at?_checked hw hn)
  have hat : s.node.at? (p ++ [0]) = some c := by
    rw [Node.at?_child hn, Node.children_of_expressions he]
  have hv := (h.placed hw hn).expression he
  have ht := ((h.expression hn he).infer_ok_iff_hasType hw hat hv t).mpr hty
  obtain rfl : t = some v.type := Except.ok.inj (ht.symm.trans hi)
  have hbool : v.type = .bool := by
    by_contra hne
    rw [hmark] at hnone
    simp only [Typing.checkCondition, Option.some.injEq, hne, if_false] at hnone
    cases hm : n.mark <;> rw [hm] at hnone <;> cases hnone
  cases v <;> cases hbool
  exact ⟨m, _, hf⟩

end

/-- Members that are sound make a sound block, in whatever way both passes came to it. -/
theorem block_sound {table : PropertyTable} {s : Sheet} {sel : String} {p : Position} {first : Nat}
    {body : List Node} {types : Types} {values : Values}
    (hmember : ∀ k n, body[k]? = some n → MemberSound table s sel (p ++ [first + k]) n)
    (htypes : ∀ k < body.length, Typing.Arrives table s (p ++ [first + k]) (some sel)
      (Typing.checkBody table sel types.enter (body.take k)).chain)
    (hvalues : ∀ k < body.length,
      Arrives s (p ++ [first + k]) (flatten values.enter (body.take k)).chain)
    (hok : (Typing.checkBody table sel types.enter body).result = .ok ()) (h : Typed types values) :
    ∃ out, (flatten values.enter body).result = .ok out ∧ Survive table s p out := by
  rw [Typing.checkBody_eq_each] at hok
  simp only [Typing.checkBody_eq_each] at htypes
  simp only [flatten_eq_gather] at hvalues ⊢
  -- The chains keep to each other in front of every member, not only at the ends of the block.
  let inv : Nat → Values → List Node → Prop := fun k chain out =>
    SurviveBefore table s p (first + k) out ∧
      Typed (Passage.each (Typing.checkMember table sel) types.enter (body.take k)).chain chain
  have start : inv 0 values.enter [] := ⟨⟨[], .nil, .nil, by simp⟩, h.enter⟩
  obtain ⟨out, hres, hinv⟩ := Passage.gather_run inv start (fun k n out hn hinv => by
    obtain ⟨hsurvive, htyped⟩ := hinv
    have hk : k < body.length := (List.getElem?_eq_some_iff.mp hn).1
    obtain ⟨here, hres, hhere, htyped'⟩ := hmember k n hn _ _ (htypes k hk) (hvalues k hk) htyped
    obtain ⟨-, hchain, -⟩ := Passage.each_at hok hn
    refine ⟨here, hres, hsurvive.append hhere, ?_⟩
    rw [hchain]
    exact htyped') (Nat.le_refl body.length)
  rw [List.take_length] at hres
  exact ⟨out, hres, hinv.1.survive⟩

theorem bindValue_of_fold {τ : Type} {values : Values} (hs : values.scopes ≠ []) {e : Node}
    {c : Constant} (hf : fold values e = .ok c) (tree : τ) (x : String) :
    ∃ values', values.bind x c = .ok values' ∧
      bindValue tree values x e = ⟨tree, values', [.bind x c], .ok ()⟩ := by
  obtain ⟨values', hb⟩ := Chain.bind_ok hs x c
  refine ⟨values', hb, ?_⟩
  simp only [bindValue, hf, Passage.chain_bind hb]

/-- After an assignment that both passes come to, the chains keep to each other. -/
theorem assignment_sound {table : PropertyTable} {s : Sheet} (hw : s.isWellPlaced = true)
    (hclean : (s.check table).tree.hasErrors = false) {p : Position} {sel : Option String}
    {types : Types} {values : Values} {m : Mark} {x : String} {e : Node}
    (hn : s.node.at? p = some (.assignment m x e)) (h : Typing.Arrives table s p sel types)
    (hv : Arrives s p values) (htyped : Typed types values) :
    (bindValue (Node.assignment m x e) values x e).result = .ok () ∧
      Typed (Typing.checkAssignment types sel m x e).chain
        (bindValue (Node.assignment m x e) values x e).chain := by
  obtain ⟨c, hf, hi⟩ := fold_of_arrives hw hclean h hn (k := 0) rfl htyped
  obtain ⟨types', hbt, hcheck⟩ := Typing.checkAssignment_eq h.ne_nil hi m x
  obtain ⟨values', hbv, hbind⟩ := bindValue_of_fold hv.ne_nil hf (Node.assignment m x e) x
  rw [hcheck, hbind]
  exact ⟨rfl, htyped.bind hbt hbv⟩

/-- Evaluation ends normally on every member of a body that both passes come to. The members of a
branch are smaller than the if-clause, so the induction is on the size. -/
theorem member_sound {table : PropertyTable} {s : Sheet} (hw : s.isWellPlaced = true)
    (hclean : (s.check table).tree.hasErrors = false) (sel : String) {n : Node}
    (hm : n.isBodyMember = true) {p : Position} (hn : s.node.at? p = some n) :
    MemberSound table s sel p n := by
  induction hs : n.size using Nat.strongRecOn generalizing n p with
  | ind size ih =>
    intro types values h hv htyped
    have hblock : ∀ {q : Position} {b : Node} {first : Nat} {members : List Node},
        s.node.at? q = some b → b.block? = some (first, members) →
        Node.areBodyMembers members = true → Node.sizeAll members < size →
        ∀ k n, members[k]? = some n → MemberSound table s sel (q ++ [first + k]) n := by
      intro q b first members hb hmembers hplaced hlt k n hk
      have hmem := List.mem_of_getElem? hk
      have hle := Node.size_le_of_mem hmem
      refine ih n.size (by omega) (Node.areBodyMembers_iff.mp hplaced n hmem) ?_ rfl
      rw [Node.at?_child hb, Node.block?_children hmembers (List.getElem?_eq_some_iff.mp hk).1, hk]
    cases n with
    | literal | reference | operation | elseClause | rule | sheet | foreign =>
      simp [Node.isBodyMember] at hm
    | declaration m name e =>
      obtain ⟨c, hf, hi⟩ := fold_of_arrives hw hclean h hn (k := 0) rfl htyped
      rw [Typing.checkMember_declaration table hi]
      simp only [flattenMember, hf, Passage.done]
      have horigin : Origin table s p (.declaration m name c.node) :=
        ⟨m, name, e, values, c, _, types, hn, hv, hf, rfl, h, hi⟩
      exact ⟨_, rfl, ⟨[p], .cons horigin .nil, List.pairwise_singleton _ p, by simp⟩, htyped⟩
    | assignment m x e =>
      obtain ⟨hres, hchain⟩ := assignment_sound hw hclean hn h hv htyped
      simp only [flattenMember, Passage.mapResult, Typing.checkMember, hres]
      exact ⟨[], rfl, .nil table s p, hchain⟩
    | ifClause m c body =>
      rw [Node.isBodyMember, Bool.and_eq_true] at hm
      obtain ⟨t, hi⟩ := Typing.infer_ok hm.1 types (some sel)
      obtain ⟨m', b, hf⟩ := fold_condition hw hclean h hn rfl htyped
      rw [Typing.checkMember_ifClause table hi]
      cases b with
      | false =>
        have hskip : Passage.inScope values (fun opened : Values =>
            Passage.done (Node.ifClause m c body) opened ([] : List Node)) =
              ⟨.ifClause m c body, values, [.enter, .leave], .ok []⟩ :=
          Passage.inScope_eq (.refl values.enter)
        simp only [flattenMember, hf, hskip]
        exact ⟨[], rfl, .nil table s p, htyped⟩
      | true =>
        simp only [flattenMember, hf, inScope_flatten, Passage.mapTree]
        have hok := (Typing.checkBody_ok_iff table sel types.enter_ne_nil body).mpr hm.2
        have hlt : Node.sizeAll body < size := by
          rw [← hs, Node.size]
          omega
        obtain ⟨out, hres, hsurvive⟩ := block_sound (hblock hn rfl hm.2 hlt)
          (fun k hk => h.branchMember hn rfl hk) (fun k hk => hv.bodyMember hn rfl hf rfl hk)
          hok htyped
        exact ⟨out, hres, hsurvive, htyped⟩
    | ifElse m c body em ebody =>
      rw [Node.isBodyMember, Bool.and_eq_true, Bool.and_eq_true] at hm
      obtain ⟨⟨hc, hbody⟩, hebody⟩ := hm
      obtain ⟨t, hi⟩ := Typing.infer_ok hc types (some sel)
      obtain ⟨m', b, hf⟩ := fold_condition hw hclean h hn rfl htyped
      have hok := (Typing.checkBody_ok_iff table sel types.enter_ne_nil body).mpr hbody
      have heok := (Typing.checkBody_ok_iff table sel types.enter_ne_nil ebody).mpr hebody
      rw [Typing.checkMember_ifElse table hi hok]
      cases b with
      | true =>
        simp only [flattenMember, hf, inScope_flatten, Passage.mapTree]
        have hlt : Node.sizeAll body < size := by
          rw [← hs, Node.size]
          omega
        obtain ⟨out, hres, hsurvive⟩ := block_sound (hblock hn rfl hbody hlt)
          (fun k hk => h.branchMember hn rfl hk) (fun k hk => hv.bodyMember hn rfl hf rfl hk)
          hok htyped
        exact ⟨out, hres, hsurvive, htyped⟩
      | false =>
        simp only [flattenMember, hf, inScope_flatten, Passage.mapTree]
        have helse := h.elseClause hn
        rw [Typing.inScope_checkBody] at helse
        have hat' := Node.at?_elseClause hn
        have hlt : Node.sizeAll ebody < size := by
          rw [← hs, Node.size]
          omega
        obtain ⟨out, hres, hsurvive⟩ := block_sound (hblock hat' rfl hebody hlt)
          (fun k hk => helse.branchMember hat' rfl hk)
          (fun k hk => by
            rw [Nat.zero_add]
            exact hv.elseMember hn hf hk)
          heok htyped
        exact ⟨out, hres, hsurvive.of_below, htyped⟩

/-- The evaluated members stand for the rules among the first `k` members of the sheet, one for one and
in order, each with the declarations that survive of it. -/
def RulesSurvive (table : PropertyTable) (s : Sheet) (k : Nat) (out : List Node) : Prop :=
  ∃ places : List Nat, places.Pairwise (· < ·) ∧
    (∀ i, i ∈ places ↔ i < k ∧ ∃ m ss body, s.members[i]? = some (.rule m ss body)) ∧
    List.Forall₂ (fun i n => ∃ m ss body decls, s.members[i]? = some (.rule m ss body) ∧
      n = .rule m ss decls ∧ Survive table s [i] decls) places out

theorem RulesSurvive.zero (table : PropertyTable) (s : Sheet) : RulesSurvive table s 0 [] :=
  ⟨[], .nil, by simp, .nil⟩

theorem RulesSurvive.assignment {table : PropertyTable} {s : Sheet} {k : Nat} {out : List Node}
    (h : RulesSurvive table s k out) {m : Mark} {x : String} {e : Node}
    (hn : s.members[k]? = some (.assignment m x e)) : RulesSurvive table s (k + 1) out := by
  obtain ⟨places, hord, hmem, hall⟩ := h
  refine ⟨places, hord, fun i => (hmem i).trans ?_, hall⟩
  constructor
  · intro hi
    exact ⟨by omega, hi.2⟩
  · intro hi
    obtain ⟨hlt, m', ss, body, hrule⟩ := hi
    rcases Nat.lt_succ_iff_lt_or_eq.mp hlt with hlt | rfl
    · exact ⟨hlt, m', ss, body, hrule⟩
    · cases hn.symm.trans hrule

theorem RulesSurvive.rule {table : PropertyTable} {s : Sheet} {k : Nat} {out : List Node}
    (h : RulesSurvive table s k out) {m : Mark} {ss : List Selector} {body decls : List Node}
    (hn : s.members[k]? = some (.rule m ss body)) (hs : Survive table s [k] decls) :
    RulesSurvive table s (k + 1) (out ++ [.rule m ss decls]) := by
  obtain ⟨places, hord, hmem, hall⟩ := h
  refine ⟨places ++ [k], ?_, fun i => ?_, ?_⟩
  · rw [List.pairwise_append]
    refine ⟨hord, List.pairwise_singleton _ k, fun i hi j hj => ?_⟩
    obtain rfl := List.mem_singleton.mp hj
    exact ((hmem i).mp hi).1
  · rw [List.mem_append, hmem, List.mem_singleton]
    constructor
    · intro hi
      rcases hi with ⟨hlt, hrule⟩ | rfl
      · exact ⟨by omega, hrule⟩
      · exact ⟨by omega, m, ss, body, hn⟩
    · intro hi
      obtain ⟨hlt, hrule⟩ := hi
      rcases Nat.lt_succ_iff_lt_or_eq.mp hlt with hlt | rfl
      · exact Or.inl ⟨hlt, hrule⟩
      · exact Or.inr rfl
  · exact List.rel_append hall (.cons ⟨m, ss, body, decls, hn, rfl, hs⟩ .nil)

/-- Evaluation ends normally on every member of the sheet. -/
theorem sheetMember_sound {table : PropertyTable} {s : Sheet} (hw : s.isWellPlaced = true)
    (hclean : (s.check table).tree.hasErrors = false) {k : Nat} {n : Node}
    (hn : s.members[k]? = some n) {types : Types} {values : Values}
    (h : Typing.Arrives table s [k] none types) (hv : Arrives s [k] values)
    (htyped : Typed types values) {out : List Node} (hrules : RulesSurvive table s k out) :
    ∃ here, (evaluateMember values n).result = .ok here ∧
      RulesSurvive table s (k + 1) (out ++ here) ∧
      Typed (Typing.checkSheetMember table types n).chain (evaluateMember values n).chain := by
  have hat := s.at?_member hn
  have hplaced := List.all_eq_true.mp hw n (List.mem_of_getElem? hn)
  cases n with
  | assignment m x e =>
    obtain ⟨hbind, hnext⟩ := assignment_sound hw hclean hat h hv htyped
    simp only [evaluateMember, Passage.mapResult, Typing.checkSheetMember, hbind]
    refine ⟨[], rfl, ?_, hnext⟩
    rw [List.append_nil]
    exact hrules.assignment hn
  | rule m ss body =>
    have hbody : Node.areBodyMembers body = true := hplaced
    have hok := (Typing.checkBody_ok_iff table (Selector.textAll ss) types.enter_ne_nil body).mpr
      hbody
    have hmember : ∀ i n, body[i]? = some n →
        MemberSound table s (Selector.textAll ss) ([k] ++ [0 + i]) n := by
      intro i n hi
      have hmem := Node.areBodyMembers_iff.mp hbody n (List.mem_of_getElem? hi)
      apply member_sound hw hclean (Selector.textAll ss) hmem
      rw [Node.at?_child hat, Node.block?_children rfl (List.getElem?_eq_some_iff.mp hi).1, hi]
    have htypes : ∀ i < body.length, Typing.Arrives table s ([k] ++ [0 + i])
        (some (Selector.textAll ss))
        (Typing.checkBody table (Selector.textAll ss) types.enter (body.take i)).chain := by
      intro i hi
      rw [Nat.zero_add]
      exact h.ruleMember hat hi
    have hvalues : ∀ i < body.length,
        Arrives s ([k] ++ [0 + i]) (flatten values.enter (body.take i)).chain := by
      intro i hi
      rw [Nat.zero_add]
      exact hv.ruleMember hat hi
    obtain ⟨decls, hflat, hsurvive⟩ := block_sound hmember htypes hvalues hok htyped
    rw [Typing.checkSheetMember_rule]
    simp only [evaluateMember, inScope_flatten, hflat]
    exact ⟨_, rfl, hrules.rule hn hsurvive, htyped⟩
  | literal | reference | operation | declaration | ifClause | ifElse | elseClause | sheet
  | foreign => cases hplaced

/-- Evaluation ends normally on a sheet that a check leaves without diagnostics. -/
theorem sheet_sound {table : PropertyTable} {s : Sheet} (hw : s.isWellPlaced = true)
    (hclean : (s.check table).tree.hasErrors = false) :
    s.evaluate.result = .ok () ∧
      RulesSurvive table s s.members.length s.evaluate.tree.members := by
  have hne := Chain.enter_ne_nil (Chain.empty .lexical : Types)
  have hok := (Typing.checkMembers_ok_iff table hne s.members).mpr hw
  rw [Typing.checkMembers_eq_each] at hok
  let inv : Nat → Values → List Node → Prop := fun k chain out =>
    RulesSurvive table s k out ∧ Typed (Passage.each (Typing.checkSheetMember table)
      (Chain.empty .lexical).enter (s.members.take k)).chain chain
  have start : inv 0 (Chain.empty .snapshot).enter [] := ⟨.zero table s, typed_empty.enter⟩
  obtain ⟨out, hres, hinv⟩ := Passage.gather_run inv start (fun k n out hn hinv => by
    obtain ⟨hrules, htyped⟩ := hinv
    have hk : k < s.members.length := (List.getElem?_eq_some_iff.mp hn).1
    have h : Typing.Arrives table s [k] none _ := .sheetMember hk
    have hv : Arrives s [k] _ := .sheetMember hk
    rw [Typing.checkMembers_eq_each] at h
    rw [evaluateMembers_eq_gather] at hv
    obtain ⟨-, hchain, -⟩ := Passage.each_at hok hn
    simp only [inv, hchain]
    exact sheetMember_sound hw hclean hn h hv htyped hrules) (Nat.le_refl s.members.length)
  rw [List.take_length, ← evaluateMembers_eq_gather] at hres
  obtain ⟨hok, htree⟩ := evaluate_of_members hres
  rw [htree]
  exact ⟨hok, hinv.1⟩

end StyleLang.Evaluation
