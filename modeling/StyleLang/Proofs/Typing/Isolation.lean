import StyleLang.Proofs.Tree.Omission

/-!
# What checking does not carry over

Rules and if-clauses leave the chain of a check as it was, so a check does not notice whether one of them
is there: without it, every other node is left with the same diagnostic. Assignments are not left out
here; what comes after them depends on them.
-/

namespace StyleLang

namespace Passage

variable {α : Type} {step : Chain α → Node → Passage α Node Unit}

/-- What is left of a node in its list is passed, and leaves the chain, like the node itself. -/
structure KeptQuiet (step : Chain α → Node → Passage α Node Unit) (c : Chain α) (n : Node)
    (p : Position) : Prop where
  result : (each step c (n.kept p)).result = .ok ()
  chain : (each step c (n.kept p)).chain = c
  tree : (each step c (n.kept p)).tree = (step c n).tree.kept p

/-- Without a node that leaves the chain as it was, or with less of it, a list is passed as before. -/
theorem each_withoutIn {c : Chain α} {ns : List Node} (h : (each step c ns).result = .ok ())
    (hbelow : ∀ c n, Chain.SameBelow c (step c n).chain) {k : Nat} {b : Node}
    (hb : ns[k]? = some b) {p : Position}
    (hquiet : ∀ d, c.SameBelow d → (step d b).result = .ok () →
      (step d b).chain = d ∧ KeptQuiet step d b p) :
    (each step c (Node.withoutIn k p ns)).result = .ok () ∧
      (each step c (Node.withoutIn k p ns)).tree = Node.withoutIn k p (each step c ns).tree := by
  obtain ⟨before, after, rfl, rfl⟩ := Node.exists_split hb
  have hsplit : before ++ b :: after = before ++ [b] ++ after := by simp
  rw [Node.withoutIn_append, hsplit]
  rw [hsplit, List.append_assoc] at h
  obtain ⟨hbefore, hrest⟩ := each_append_ok.mp h
  obtain ⟨hok, hafter⟩ := each_append_ok.mp hrest
  rw [each, andThen_unit_ok] at hok
  obtain ⟨hchain, hkept⟩ := hquiet _ (each_sameBelow hbelow c before) hok.1
  obtain ⟨hresult, hsingle, htree⟩ := each_singleton hok.1
  rw [hchain] at hsingle
  rw [hsingle] at hafter
  obtain ⟨-, hold⟩ := each_between hbefore hresult hsingle after
  obtain ⟨hiff, hnew⟩ := each_between hbefore hkept.result hkept.chain after
  refine ⟨hiff.mpr hafter, ?_⟩
  rw [hnew, hold, htree, hkept.tree, List.append_assoc _ [_], List.singleton_append]
  have hlen : (each step c before).tree.length = before.length := each_length c before
  rw [← hlen, Node.withoutIn_append]

theorem each_pair {c : Chain α} {a b : Node} (ha : (step c a).result = .ok ())
    (hb : (step c b).result = .ok ()) (hqa : (step c a).chain = c) (hqb : (step c b).chain = c) :
    (each step c [a, b]).result = .ok () ∧ (each step c [a, b]).chain = c ∧
      (each step c [a, b]).tree = [(step c a).tree, (step c b).tree] := by
  simp only [each, andThen_of_ok ha, hqa, andThen_of_ok hb, hqb]
  exact ⟨rfl, rfl, rfl⟩

/-- Two nodes that leave the chain as it was may change places. -/
theorem each_swapAt {c : Chain α} {ns : List Node} (h : (each step c ns).result = .ok ()) {k : Nat}
    {a b : Node} (ha : ns[k]? = some a) (hb : ns[k + 1]? = some b)
    (hqa : ∀ d, (step d a).chain = d) (hqb : ∀ d, (step d b).chain = d) :
    (each step c (Node.swapAt k ns)).result = .ok () ∧
      (each step c (Node.swapAt k ns)).tree = Node.swapAt k (each step c ns).tree := by
  obtain ⟨before, after, rfl, rfl⟩ := Node.exists_split_pair ha hb
  have hpairs : ∀ (as bs : List Node) (a b : Node), as ++ a :: b :: bs = as ++ [a, b] ++ bs := by simp
  rw [Node.swapAt_append, hpairs before after b a, hpairs before after a b]
  rw [hpairs before after a b, List.append_assoc] at h
  obtain ⟨hbefore, hrest⟩ := each_append_ok.mp h
  obtain ⟨hpair, hafter⟩ := each_append_ok.mp hrest
  rw [each, andThen_unit_ok, hqa, each, andThen_unit_ok] at hpair
  obtain ⟨hoka, hokb, -⟩ := hpair
  obtain ⟨hold, holdchain, holdtree⟩ := each_pair hoka hokb (hqa _) (hqb _)
  obtain ⟨hnew, hnewchain, hnewtree⟩ := each_pair hokb hoka (hqb _) (hqa _)
  rw [holdchain] at hafter
  obtain ⟨-, htree⟩ := each_between hbefore hold holdchain after
  obtain ⟨hiff, htree'⟩ := each_between hbefore hnew hnewchain after
  refine ⟨hiff.mpr hafter, ?_⟩
  have hlen : (each step c before).tree.length = before.length := each_length c before
  rw [htree', htree, holdtree, hnewtree, ← hpairs, ← hpairs, ← hlen, Node.swapAt_append]

end Passage

namespace Typing

section
variable {table : PropertyTable} {sel : String} {clause : Node}

/-- An if-clause leaves the chain as it was. -/
theorem checkMember_chain {n : Node} (hn : n.condition?.isSome) (types : Types) :
    (checkMember table sel types n).chain = types := by
  cases n with
  | ifClause m c body =>
    simp only [checkMember, inScope_checkBody, Passage.mapTree]
    split <;> rfl
  | ifElse m c body em ebody =>
    simp only [checkMember, inScope_checkBody]
    split
    · rfl
    · unfold Passage.andThen
      split <;> rfl
  | literal | reference | operation | declaration | assignment | elseClause | rule | sheet
  | foreign => cases hn

/-- Without the if-clause at the position the member is checked like with it. -/
structure CheckedWithout (table : PropertyTable) (sel : String) (types : Types) (n : Node)
    (p : Position) : Prop where
  result : (checkMember table sel types (n.without p)).result = .ok ()
  chain : (checkMember table sel types (n.without p)).chain = types
  tree : (checkMember table sel types (n.without p)).tree =
    (checkMember table sel types n).tree.without p

theorem checkBody_without {body : List Node} {k : Nat} {p : Position}
    (h : Node.ClauseIn clause body k p) {types : Types} (hs : types.scopes ≠ [])
    (hmember : p ≠ [] → ∀ b ∈ body, b.at? p = some clause →
      ∀ d : Types, CheckedWithout table sel d b p) :
    (checkBody table sel types (Node.withoutIn k p body)).result = .ok () ∧
      (checkBody table sel types (Node.withoutIn k p body)).tree =
        Node.withoutIn k p (checkBody table sel types body).tree := by
  have hok := (checkBody_ok_iff table sel hs body).mpr h.placed
  obtain ⟨before, b, after, rfl, rfl, -, hat, hcond, -⟩ := h.exists_split
  rw [checkBody_eq_each] at hok ⊢
  rw [checkBody_eq_each]
  refine Passage.each_withoutIn hok (checkMember_sameBelow table sel) (b := b) (by simp) fun d _ _ => ?_
  refine ⟨checkMember_chain hcond d, ?_⟩
  cases p with
  | nil => exact ⟨rfl, rfl, rfl⟩
  | cons i p =>
    obtain ⟨hr, hch, ht⟩ := hmember (List.cons_ne_nil i p) b (by simp) hat d
    obtain ⟨hr', hch', ht'⟩ := Passage.each_singleton hr
    exact ⟨hr', hch'.trans hch, ht'.trans (congrArg (fun n => [n]) ht)⟩

theorem checkMember_without {n : Node} (hn : n.isBodyMember = true) (hc : clause.condition?.isSome)
    {p : Position} (hat : n.at? p = some clause) (hp : p ≠ []) {types : Types} :
    CheckedWithout table sel types n p := by
  induction hs : n.size using Nat.strongRecOn generalizing n p types with
  | ind size ih =>
    cases p with
    | nil => exact absurd rfl hp
    | cons k p =>
      obtain ⟨n', hn', hbelow⟩ : ∃ n', n.without (k :: p) = n' ∧
          Node.ClauseBelow clause n (k :: p) n' := ⟨_, rfl, Node.clauseBelow_of_at? hn hc hat⟩
      -- The body that the if-clause is left out of, in a scope of its own.
      have hblock : ∀ {body : List Node} {j : Nat} {q : Position}, Node.ClauseIn clause body j q →
          Node.sizeAll body < size →
          (checkBody table sel types.enter (Node.withoutIn j q body)).result = .ok () ∧
            (checkBody table sel types.enter (Node.withoutIn j q body)).tree =
              Node.withoutIn j q (checkBody table sel types.enter body).tree := by
        intro body j q h hlt
        refine checkBody_without h types.enter_ne_nil fun hne b hb hq d => ?_
        have hle := Node.size_le_of_mem hb
        exact ih b.size (by omega) (Node.areBodyMembers_iff.mp h.placed b hb) hq hne rfl
      cases hbelow with
      | @ifClause m c body j p h =>
        rw [Node.isBodyMember, Bool.and_eq_true] at hn
        obtain ⟨t, ht⟩ := infer_ok hn.1 types (some sel)
        have hlt : Node.sizeAll body < size := by
          rw [← hs, Node.size]
          omega
        obtain ⟨hr, htree⟩ := hblock h hlt
        refine ⟨?_, ?_, ?_⟩
        · rw [hn', checkMember_ifClause table ht]
          exact hr
        · rw [hn', checkMember_ifClause table ht]
        · rw [hn', checkMember_ifClause table ht, checkMember_ifClause table ht,
            Node.without_ifClause, htree]
      | @ifBody m c body em ebody j p h =>
        rw [Node.isBodyMember, Bool.and_eq_true, Bool.and_eq_true] at hn
        obtain ⟨⟨hcond, hbody⟩, hebody⟩ := hn
        obtain ⟨t, ht⟩ := infer_ok hcond types (some sel)
        have hlt : Node.sizeAll body < size := by
          rw [← hs, Node.size]
          omega
        obtain ⟨hr, htree⟩ := hblock h hlt
        have hok := (checkBody_ok_iff table sel types.enter_ne_nil body).mpr hbody
        have heok := (checkBody_ok_iff table sel types.enter_ne_nil ebody).mpr hebody
        have hchecked : j < (checkBody table sel types.enter body).tree.length := by
          obtain ⟨b, hb, -⟩ := h.found
          rw [checkBody_length]
          exact (List.getElem?_eq_some_iff.mp hb).1
        refine ⟨?_, ?_, ?_⟩
        · rw [hn', checkMember_ifElse table ht hr]
          exact heok
        · rw [hn', checkMember_ifElse table ht hr]
        · rw [hn', checkMember_ifElse table ht hr, checkMember_ifElse table ht hok,
            Node.without_ifElse_body _ _ _ _ (List.getElem?_eq_getElem hchecked), htree]
      | @elseBody m c body em ebody j p h =>
        rw [Node.isBodyMember, Bool.and_eq_true, Bool.and_eq_true] at hn
        obtain ⟨⟨hcond, hbody⟩, -⟩ := hn
        obtain ⟨t, ht⟩ := infer_ok hcond types (some sel)
        have hlt : Node.sizeAll ebody < size := by
          rw [← hs, Node.size]
          omega
        obtain ⟨hr, htree⟩ := hblock h hlt
        have hok := (checkBody_ok_iff table sel types.enter_ne_nil body).mpr hbody
        refine ⟨?_, ?_, ?_⟩
        · rw [hn', checkMember_ifElse table ht hok]
          exact hr
        · rw [hn', checkMember_ifElse table ht hok]
        · rw [hn', checkMember_ifElse table ht hok, checkMember_ifElse table ht hok,
            ← checkBody_length table sel types.enter body, Node.without_ifElse_elseBody, htree]

end

end Typing

section

open Typing

variable {table : PropertyTable} {s : Sheet}

/-- A rule leaves the chain as it was. -/
theorem Typing.checkSheetMember_chain {n : Node} (hn : n.isRule = true) (types : Types) :
    (checkSheetMember table types n).chain = types := by
  cases n with
  | rule m ss body => rw [checkSheetMember_rule]
  | literal | reference | operation | declaration | assignment | ifClause | ifElse | elseClause
  | sheet | foreign => cases hn

/-- The check without a rule, or without a part of one. -/
theorem Sheet.check_withoutIn (hw : s.isWellPlaced = true) {k : Nat} {n : Node}
    (hn : s.members[k]? = some n) (hr : n.isRule = true) {p : Position}
    (hkept : ∀ d : Types, Passage.KeptQuiet (checkSheetMember table) d n p) :
    ((s.without (k :: p)).check table).result = .ok () ∧
      ((s.without (k :: p)).check table).tree = (s.check table).tree.without (k :: p) := by
  have hne := Chain.enter_ne_nil (Chain.empty .lexical : Types)
  have hok := (checkMembers_ok_iff table hne s.members).mpr hw
  rw [checkMembers_eq_each] at hok
  obtain ⟨hresult, htree⟩ := Passage.each_withoutIn hok (checkSheetMember_sameBelow table) hn
    fun d _ _ => ⟨checkSheetMember_chain hr d, hkept d⟩
  constructor
  · rw [Sheet.check_ok_iff, Sheet.isWellPlaced, ← checkMembers_ok_iff table hne,
      checkMembers_eq_each]
    exact hresult
  · rw [Sheet.check_tree, Sheet.check_tree, checkMembers_eq_each, checkMembers_eq_each]
    simp only [Sheet.without, htree]

theorem Sheet.check_without_rule (hw : s.isWellPlaced = true) {k : Nat} {n : Node}
    (hn : s.members[k]? = some n) (hr : n.isRule = true) :
    ((s.without [k]).check table).result = .ok () ∧
      ((s.without [k]).check table).tree = (s.check table).tree.without [k] :=
  Sheet.check_withoutIn hw hn hr fun _ => ⟨rfl, rfl, rfl⟩

theorem Sheet.check_without_clause (hw : s.isWellPlaced = true) {p : Position} {clause : Node}
    (hat : s.node.at? p = some clause) (hc : clause.condition?.isSome) :
    ((s.without p).check table).result = .ok () ∧
      ((s.without p).check table).tree = (s.check table).tree.without p := by
  obtain ⟨k, j, q, m, ss, body, rfl, hn, h⟩ := s.exists_rule_of_at? hw hc hat
  refine Sheet.check_withoutIn hw hn rfl fun d => ?_
  obtain ⟨hr, ht⟩ : (checkBody table _ d.enter (Node.withoutIn j q body)).result = .ok () ∧
      (checkBody table _ d.enter (Node.withoutIn j q body)).tree =
        Node.withoutIn j q (checkBody table (Selector.textAll ss) d.enter body).tree :=
    checkBody_without h d.enter_ne_nil fun hne b hb hbat _ =>
      checkMember_without (Node.areBodyMembers_iff.mp h.placed b hb) hc hbat hne
  have hmember : (checkSheetMember table d ((Node.rule m ss body).without (j :: q))).result = .ok () ∧
      (checkSheetMember table d ((Node.rule m ss body).without (j :: q))).chain = d ∧
      (checkSheetMember table d ((Node.rule m ss body).without (j :: q))).tree =
        (checkSheetMember table d (.rule m ss body)).tree.without (j :: q) := by
    rw [Node.without_rule, checkSheetMember_rule, checkSheetMember_rule, Node.without_rule]
    exact ⟨hr, rfl, congrArg _ ht⟩
  obtain ⟨hresult, hchain, htree⟩ := hmember
  obtain ⟨hr', hch', ht'⟩ := Passage.each_singleton hresult
  exact ⟨hr', hch'.trans hchain, ht'.trans (congrArg (fun n => [n]) htree)⟩

/-- Two rules next to each other may change places. -/
theorem Sheet.check_swap (hw : s.isWellPlaced = true) {k : Nat} {a b : Node}
    (ha : s.members[k]? = some a) (hb : s.members[k + 1]? = some b) (hra : a.isRule = true)
    (hrb : b.isRule = true) :
    ((s.swap k).check table).result = .ok () ∧
      ((s.swap k).check table).tree = (s.check table).tree.swap k := by
  have hne := Chain.enter_ne_nil (Chain.empty .lexical : Types)
  have hok := (checkMembers_ok_iff table hne s.members).mpr hw
  rw [checkMembers_eq_each] at hok
  obtain ⟨hresult, htree⟩ := Passage.each_swapAt hok ha hb (checkSheetMember_chain hra)
    (checkSheetMember_chain hrb)
  constructor
  · rw [Sheet.check_ok_iff, Sheet.isWellPlaced, ← checkMembers_ok_iff table hne,
      checkMembers_eq_each]
    exact hresult
  · rw [Sheet.check_tree, Sheet.check_tree, checkMembers_eq_each, checkMembers_eq_each]
    simp only [Sheet.swap, htree]

end

end StyleLang
