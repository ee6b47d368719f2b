import StyleLang.Proofs.Scope.Agreement
import StyleLang.Proofs.Typing.Arrival

/-!
# Agreement of chain and positions

A chain agrees with a position when it answers every name with the type of the last assignment that
counts there, and with nothing if none counts. Checking comes to every position with a chain that
agrees with it. One step past a member keeps agreement for the next member, whatever the member was;
the rest is induction over the members of a block and over the way down.
-/

namespace StyleLang.Typing

open Position

/-- The chain answers at `p` what the scopes by position say. -/
def Agrees (root : Node) (p : Position) (types : Types) : Prop :=
  ∀ x, match types.resolve x with
    | none => ∀ q, ¬ root.Visible x q p
    | some t => ∃ q, root.LastVisible x q p ∧ HasType root (q ++ [0]) t

theorem agrees_iff {root : Node} {p : Position} {types : Types} :
    Agrees root p types ↔ types.AgreesAt (HasType root) root p := by
  refine forall_congr' fun x => ?_
  cases types.resolve x <;> rfl

theorem Agrees.unbound {root : Node} {p : Position} {types : Types} (h : Agrees root p types)
    {x : String} (hx : types.resolve x = none) (q : Position) : ¬ root.Visible x q p :=
  (agrees_iff.mp h).unbound hx q

theorem Agrees.bound {root : Node} {p : Position} {types : Types} (h : Agrees root p types)
    {x : String} {t : Option ValueType} (hx : types.resolve x = some t) :
    ∃ q, root.LastVisible x q p ∧ HasType root (q ++ [0]) t :=
  (agrees_iff.mp h).bound hx

/-- A child that is no member of a block is come to with its parent's chain. -/
theorem Agrees.child {root : Node} {p : Position} {types : Types} (h : Agrees root p types) {k : Nat}
    (hk : ¬ root.DirectMember p k) : Agrees root (p ++ [k]) types :=
  agrees_iff.mpr ((agrees_iff.mp h).child hk)

/-- Inference with a chain that agrees gives the type that the position has. -/
theorem infer_hasType {root : Node} {types : Types} {sel : Option String} {e : Node} {p : Position}
    {t : Option ValueType} (h : Agrees root p types) (hn : root.at? p = some e)
    (ht : (infer types sel e).result = .ok t) : HasType root p t := by
  cases e with
  | literal m v =>
    cases ht
    exact .literal hn
  | reference m x =>
    cases hx : types.resolve x with
    | none =>
      simp only [infer, hx] at ht
      cases ht
      exact .unbound hn (h.unbound hx)
    | some u =>
      simp only [infer, hx] at ht
      cases ht
      obtain ⟨q, hq, hu⟩ := h.bound hx
      exact .bound hn hq hu
  | operation m op l r =>
    have hv : (Node.operation m op l r).isValue = true := (infer_ok_iff types sel _).mp ⟨t, ht⟩
    rw [Node.isValue, Bool.and_eq_true] at hv
    obtain ⟨a, ha⟩ := infer_ok hv.1 types sel
    obtain ⟨b, hb⟩ := infer_ok hv.2 types sel
    have hl : HasType root (p ++ [0]) a :=
      infer_hasType (h.child (Node.not_directMember_expression hn rfl)) (Node.at?_child hn 0) ha
    have hr : HasType root (p ++ [1]) b :=
      infer_hasType (h.child (Node.not_directMember_expression hn rfl)) (Node.at?_child hn 1) hb
    rw [infer_operation ha hb] at ht
    obtain rfl := Except.ok.inj ht
    cases a with
    | none => exact .unknown hn hl hr (Or.inl rfl)
    | some s =>
      cases b with
      | none => exact .unknown hn hl hr (Or.inr rfl)
      | some u =>
        cases hc : checkOperands op s u sel with
        | none =>
          rw [operationResult, hc]
          exact .operation hn hl hr ((operationType_iff sel).mp ⟨hc, rfl⟩)
        | some d =>
          rw [operationResult, hc]
          exact .illTyped hn hl hr ((operandFault_iff sel).mp ⟨d, checkOperands_iff.mp hc⟩)
  | declaration | assignment | ifClause | ifElse | elseClause | rule | sheet | foreign =>
    simp [infer] at ht

/-- What checking a member does to the chain. -/
inductive Steps (sel : Option String) (types : Types) : Node → Types → Prop
  | assignment {m x e t types'} (ht : (infer types sel e).result = .ok t)
      (hb : types.bind x t = .ok types') : Steps sel types (.assignment m x e) types'
  | other {n} (hn : ∀ m x e, n ≠ .assignment m x e) : Steps sel types n types

theorem checkAssignment_steps {types : Types} {sel : Option String} {m : Mark} {x : String} {e : Node}
    (h : (checkAssignment types sel m x e).result = .ok ()) :
    Steps sel types (.assignment m x e) (checkAssignment types sel m x e).chain := by
  cases ht : (infer types sel e).result with
  | error f => simp [checkAssignment, ht, Passage.stop] at h
  | ok t =>
    cases hb : types.bind x t with
    | error f => simp [checkAssignment, ht, Passage.bind, hb, Passage.stop] at h
    | ok types' =>
      simp only [checkAssignment, ht, Passage.chain_bind hb]
      exact .assignment ht hb

theorem checkMember_steps {table : PropertyTable} {sel : String} {types : Types} {n : Node}
    (h : (checkMember table sel types n).result = .ok ()) :
    Steps (some sel) types n (checkMember table sel types n).chain := by
  cases n with
  | assignment m x e =>
    simp only [checkMember] at h ⊢
    exact checkAssignment_steps h
  | declaration m p e =>
    cases ht : (infer types (some sel) e).result with
    | error f => simp [checkMember, ht, Passage.stop] at h
    | ok t =>
      rw [checkMember_declaration table ht]
      exact .other (by simp)
  | ifClause m c body =>
    cases ht : (infer types (some sel) c).result with
    | error f => simp [checkMember, ht, Passage.stop] at h
    | ok t =>
      rw [checkMember_ifClause table ht]
      exact .other (by simp)
  | ifElse m c body em ebody =>
    cases ht : (infer types (some sel) c).result with
    | error f => simp [checkMember, ht, Passage.stop] at h
    | ok t =>
      simp only [checkMember, ht, Passage.andThen_unit_ok, inScope_checkBody] at h
      rw [checkMember_ifElse table ht h.1]
      exact .other (by simp)
  | literal | reference | operation | elseClause | rule | sheet | foreign =>
    simp [checkMember, Passage.stop] at h

theorem checkSheetMember_steps {table : PropertyTable} {types : Types} {n : Node}
    (h : (checkSheetMember table types n).result = .ok ()) :
    Steps none types n (checkSheetMember table types n).chain := by
  cases n with
  | assignment m x e => exact checkAssignment_steps h
  | rule m ss body =>
    rw [checkSheetMember_rule]
    exact .other (by simp)
  | literal | reference | operation | declaration | ifClause | ifElse | elseClause | sheet
  | foreign => simp [checkSheetMember, Passage.stop] at h

/-- One step past a member: an assignment is the last that counts for its name from then on, and any
other member changes nothing. -/
theorem Agrees.next {root n : Node} {p : Position} {k : Nat} {sel : Option String}
    {types types' : Types} (h : Agrees root (p ++ [k]) types) (hn : root.at? (p ++ [k]) = some n)
    (hk : root.DirectMember p k) (hk' : root.DirectMember p (k + 1))
    (hs : Steps sel types n types') : Agrees root (p ++ [k + 1]) types' := by
  cases hs with
  | other hne => exact agrees_iff.mpr ((agrees_iff.mp h).next_other hn hne hk hk')
  | @assignment m y e t _ ht hb =>
    have htype : HasType root (p ++ [k] ++ [0]) t := by
      refine infer_hasType (h.child ?_) (Node.at?_child hn 0) ht
      exact Node.not_directMember_expression hn rfl
    exact agrees_iff.mpr ((agrees_iff.mp h).next_assignment hn hk hk' htype hb)

/-- Every member of a block is come to with a chain that agrees with its position. -/
theorem Agrees.members {step : Types → Node → Checked Node} {sel : Option String}
    (hstep : ∀ types n, (step types n).result = .ok () → Steps sel types n (step types n).chain)
    {root n : Node} {p : Position} {types : Types} (h : Agrees root p types)
    (hn : root.at? p = some n) {first : Nat} {members : List Node}
    (hb : n.block? = some (first, members))
    (hok : (Passage.each step types.enter members).result = .ok ()) {k : Nat}
    (hk : k < members.length) :
    Agrees root (p ++ [first + k]) (Passage.each step types.enter (members.take k)).chain := by
  have hmember : ∀ i, i < members.length → root.DirectMember p (first + i) := by
    intro i hi
    exact ⟨n, first, members, hn, hb, by omega, by omega⟩
  induction k with
  | zero => exact agrees_iff.mpr ((agrees_iff.mp h).first hn hb)
  | succ k ih =>
    have hlt : k < members.length := by omega
    have hget : members[k]? = some members[k] := List.getElem?_eq_getElem hlt
    obtain ⟨hr, hc, -⟩ := Passage.each_at hok hget
    have hat : root.at? (p ++ [first + k]) = some members[k] := by
      rw [Node.at?_child hn, Node.block?_children hb hlt, hget]
    rw [hc]
    exact (ih hlt).next hat (hmember k hlt) (hmember (k + 1) hk) (hstep _ _ hr)

/-- Checking comes to every position with a chain that agrees with it. -/
theorem Arrives.agrees {table : PropertyTable} {s : Sheet} (hw : s.isWellPlaced = true) {p : Position}
    {sel : Option String} {types : Types} (h : Arrives table s p sel types) :
    Agrees s.node p types := by
  induction h with
  | @sheetMember k hk =>
    have hne := Chain.enter_ne_nil (Chain.empty .lexical : Types)
    have hok := (checkMembers_ok_iff table hne s.members).mpr hw
    rw [checkMembers_eq_each] at hok
    have hroot := agrees_iff.mpr (.at_root (HasType s.node) s.node .lexical)
    have := hroot.members (fun _ _ hr => checkSheetMember_steps hr)
      (Node.at?_nil _) rfl hok hk
    rwa [Nat.zero_add, ← checkMembers_eq_each] at this
  | @ruleMember p types m ss body k h hn hk ih =>
    have hbody : Node.areBodyMembers body = true := by
      have := h.placed hw hn
      simpa [Placed, Node.isSheetMember, Node.isValue] using this
    have hok := (checkBody_ok_iff table (Selector.textAll ss) types.enter_ne_nil body).mpr hbody
    rw [checkBody_eq_each] at hok
    have := ih.members (fun _ _ hr => checkMember_steps hr) hn rfl hok hk
    rwa [Nat.zero_add, ← checkBody_eq_each] at this
  | @branchMember p sel types n first body k h hn hb hk ih =>
    have hbody := (h.placed hw hn).members hb
    have hok := (checkBody_ok_iff table sel types.enter_ne_nil body).mpr hbody
    rw [checkBody_eq_each] at hok
    rw [checkBody_eq_each]
    exact ih.members (fun _ _ hr => checkMember_steps hr) hn hb hok hk
  | @elseClause p sel types m c body em ebody h hn ih =>
    rw [inScope_checkBody]
    exact ih.child (Node.not_directMember_elseClause hn)
  | expression h hn he ih => exact ih.child (Node.not_directMember_expression hn he)

end StyleLang.Typing
